import MyOperator.Lib.RowArray

/-!
# Block tables

`BlockTable` and `MultiGroupBlockTable`: for each group of the KV cache a row of
kernel block ids for each request, and how many of its entries are in use.
-/

namespace MyOperator.Worker

open Function Lib List

/-- `BlockTable`: `block_table.np`, `num_blocks_per_row` and `blocks_per_kv_block`. -/
structure BlockTable where
  blocksPerKvBlock : Nat := 1
  table : Nat → Nat → Nat := fun _ _ => 0
  numBlocksPerRow : Nat → Nat := fun _ => 0

namespace BlockTable

/-- `map_to_kernel_blocks`; with one kernel block in each block the ids are kept. -/
def mapToKernelBlocks (blocksPerKvBlock : Nat) (blockIds : List Nat) : List Nat :=
  if blocksPerKvBlock = 1 then blockIds
  else blockIds.flatMap fun b => (range blocksPerKvBlock).map fun k => b * blocksPerKvBlock + k

def appendRow (t : BlockTable) (blockIds : List Nat) (row : Nat) : BlockTable :=
  if blockIds = [] then t
  else
    { t with
      table := update t.table row (writeAt (t.table row) (t.numBlocksPerRow row)
        (mapToKernelBlocks t.blocksPerKvBlock blockIds))
      numBlocksPerRow := update t.numBlocksPerRow row
        (t.numBlocksPerRow row + (mapToKernelBlocks t.blocksPerKvBlock blockIds).length) }

def addRow (t : BlockTable) (blockIds : List Nat) (row : Nat) : BlockTable :=
  { t with numBlocksPerRow := update t.numBlocksPerRow row 0 }.appendRow blockIds row

def clearRow (t : BlockTable) (row : Nat) : BlockTable := { t with
    table := update t.table row (fillAt (t.table row) 0 (t.numBlocksPerRow row) 0)
    numBlocksPerRow := update t.numBlocksPerRow row 0 }

def moveRow (t : BlockTable) (src tgt : Nat) : BlockTable := { t with
    table := copyPrefix t.table src tgt (t.numBlocksPerRow src)
    numBlocksPerRow := copyRow t.numBlocksPerRow src tgt }

def swapRow (t : BlockTable) (src tgt : Nat) : BlockTable := { t with
    table := Lib.swapRow t.table src tgt
    numBlocksPerRow := Lib.swapRow t.numBlocksPerRow src tgt }

/-- The blocks of a row: the entries in use. -/
def rowBlocks (t : BlockTable) (row : Nat) : List Nat :=
  (range (t.numBlocksPerRow row)).map (t.table row)

variable {t : BlockTable} {row r src tgt : Nat} {ids : List Nat}

theorem rowBlocks_congr {t' : BlockTable} (hn : t'.numBlocksPerRow r = t.numBlocksPerRow row)
    (ht : ∀ p < t.numBlocksPerRow row, t'.table r p = t.table row p) :
    t'.rowBlocks r = t.rowBlocks row := by
  rw [rowBlocks, hn]
  refine map_congr_left ?_
  intro p hp
  exact ht p (mem_range.mp hp)

@[simp] theorem mapToKernelBlocks_nil (n : Nat) : mapToKernelBlocks n [] = [] := by
  rw [mapToKernelBlocks]
  split_ifs <;> rfl

@[simp] theorem blocksPerKvBlock_appendRow :
    (t.appendRow ids row).blocksPerKvBlock = t.blocksPerKvBlock := by
  rw [appendRow]
  split_ifs <;> rfl

theorem rowBlocks_appendRow : (t.appendRow ids row).rowBlocks row =
    t.rowBlocks row ++ mapToKernelBlocks t.blocksPerKvBlock ids := by
  rw [appendRow]
  split_ifs with h
  · subst h
    simp
  · simp only [rowBlocks, update_self, range_add, map_append, map_map]
    congr 1
    · refine map_congr_left ?_
      intro p hp
      exact writeAt_of_lt (mem_range.mp hp)
    · refine ext_getElem (by simp) ?_
      intro p h1 h2
      simp only [getElem_map, getElem_range]
      exact writeAt_add h2

theorem rowBlocks_appendRow_of_ne (h : r ≠ row) :
    (t.appendRow ids row).rowBlocks r = t.rowBlocks r := by
  rw [appendRow]
  split_ifs
  · rfl
  · exact rowBlocks_congr (update_of_ne h ..) fun p _ => congrFun (update_of_ne h ..) p

theorem rowBlocks_addRow :
    (t.addRow ids row).rowBlocks row = mapToKernelBlocks t.blocksPerKvBlock ids := by
  rw [addRow, rowBlocks_appendRow]
  simp [rowBlocks]

theorem rowBlocks_addRow_of_ne (h : r ≠ row) : (t.addRow ids row).rowBlocks r = t.rowBlocks r := by
  rw [addRow, rowBlocks_appendRow_of_ne h]
  exact rowBlocks_congr (update_of_ne h ..) fun p _ => rfl

theorem rowBlocks_clearRow_of_ne (h : r ≠ row) :
    (t.clearRow row).rowBlocks r = t.rowBlocks r :=
  rowBlocks_congr (update_of_ne h ..) fun p _ => congrFun (update_of_ne h ..) p

theorem rowBlocks_moveRow : (t.moveRow src tgt).rowBlocks tgt = t.rowBlocks src :=
  rowBlocks_congr copyRow_dst fun _ hp => copyPrefix_dst hp

theorem rowBlocks_moveRow_of_ne (h : r ≠ tgt) :
    (t.moveRow src tgt).rowBlocks r = t.rowBlocks r :=
  rowBlocks_congr (copyRow_of_ne h) fun p _ => congrFun (copyPrefix_of_ne h) p

end BlockTable

/-- `MultiGroupBlockTable`: a table for each group of the KV cache. -/
abbrev MultiGroupBlockTable (G : Type) := G → BlockTable

end MyOperator.Worker
