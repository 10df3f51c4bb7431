import PoolAlloc.Display
import PoolAlloc.FreeList.Basic
/-!
# PoolAlloc.FreeList.Display

How free blocks and their totals are shown.
-/

namespace PoolAlloc

instance : Shown FreeBlock where
  doc b := .record "FreeBlockInfo" [("start", .pointer b.start), ("size", .number b.size)] false

instance : Shown FreeList.Summary where
  doc s := .record "Stats"
    [("free_blocks", .number s.count), ("free_bytes", .number s.bytes),
     ("largest_free_block", .number s.largest)] false

end PoolAlloc
