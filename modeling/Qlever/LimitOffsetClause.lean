import Mathlib

/-! The LIMIT and OFFSET of a query. -/
namespace Qlever

structure LimitOffsetClause where
  limit : Option Nat := none
  offset : Nat := 0
  exportLimit : Option Nat := none

namespace LimitOffsetClause

def limitOrDefault (clause : LimitOffsetClause) : Nat := clause.limit.getD (2 ^ 64 - 1)

def exportLimitOrDefault (clause : LimitOffsetClause) : Nat := clause.exportLimit.getD (2 ^ 64 - 1)

def isUnconstrained (clause : LimitOffsetClause) : Bool := clause.limit.isNone && clause.offset = 0

end LimitOffsetClause

variable {Row : Type}

/-- The rest of a block after the LIMIT and OFFSET, and the parts of these that are left for the next blocks. -/
def pruneBlock (block : List Row) (limitOffset : LimitOffsetClause) : List Row × LimitOffsetClause :=
  let offsetInBlock := min limitOffset.offset block.length
  let block := if offsetInBlock = block.length then [] else block.drop offsetInBlock
  let limitInBlock := min block.length (limitOffset.limit.getD block.length)
  (block.take limitInBlock,
    {limitOffset with offset := limitOffset.offset - offsetInBlock, limit := limitOffset.limit.map (fun limit => limit - limitInBlock)})

namespace LimitOffsetClause
variable (clause : LimitOffsetClause) (block rows : List Row)

def slice : List Row :=
  match clause.limit with
  | none => rows.drop clause.offset
  | some limit => (rows.drop clause.offset).take limit

@[simp] theorem slice_nil : clause.slice ([] : List Row) = [] := by
  unfold slice
  cases clause.limit <;> simp

theorem pruneBlock_block : (pruneBlock block clause).1 = clause.slice block := by
  have dropped : (if min clause.offset block.length = block.length then [] else block.drop (min clause.offset block.length)) = block.drop clause.offset := by
    split
    next whole => rw [List.drop_eq_nil_of_le (by omega)]
    next => rw [Nat.min_eq_left (by omega)]
  simp only [pruneBlock,dropped,slice]
  cases clause.limit with
  | none => rw [Option.getD_none,Nat.min_self,List.take_length]
  | some limit => rw [Option.getD_some,List.take_eq_take_iff,Nat.min_assoc,Nat.min_comm,Nat.min_assoc,Nat.min_self]

theorem length_slice_le {limit : Nat} (isLimit : clause.limit = some limit) : (clause.slice block).length ≤ limit := by
  simp only [slice,isLimit]
  exact List.length_take_le limit _

theorem slice_append : clause.slice (block ++ rows) = (pruneBlock block clause).1 ++ (pruneBlock block clause).2.slice rows := by
  rw [pruneBlock_block]
  have length : (if min clause.offset block.length = block.length then [] else block.drop (min clause.offset block.length)).length =
      block.length - clause.offset := by
    split
    next whole => simp only [List.length_nil]; omega
    next => rw [List.length_drop]; omega
  simp only [pruneBlock,slice,length]
  cases clause.limit with
  | none =>
    simp only [Option.map_none,List.drop_append]
    congr 2
    omega
  | some limit =>
    simp only [Option.map_some,Option.getD_some,List.drop_append,List.take_append,List.length_drop]
    congr 2
    · omega
    · congr 1
      omega

theorem limit_pruneBlock : (pruneBlock block clause).2.limit = clause.limit.map (fun limit => limit - (clause.slice block).length) := by
  rw [← pruneBlock_block]
  cases isLimit : clause.limit <;> simp [pruneBlock,isLimit]

end LimitOffsetClause
end Qlever
