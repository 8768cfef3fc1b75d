import Mathlib.Data.List.Basic
import Mathlib.Data.List.Infix

/-!
# Splitting streams at double newlines

A stream of blocks, each ended by two newlines. `cutBlock` takes the first block off, `splitBlocks` gives
all of them and the open block behind the last one. The laws follow a reader that has read up to some
point: a separator may lie across that point.
-/

namespace AgentCraft.Streams

variable {α : Type*} [DecidableEq α] (nl : α)

/-- The first block and what follows its separator. -/
@[grind] def cutBlock : List α → Option (List α × List α)
  | [] => none
  | [_] => none
  | a :: b :: s =>
    if a = nl ∧ b = nl then some ([], s) else (cutBlock (b :: s)).map fun p => (a :: p.1, p.2)

/-- The blocks of a stream, and the open block after the last of them. -/
@[grind] def splitBlocks : List α → List (List α) × List α
  | [] => ([], [])
  | [a] => ([], [a])
  | a :: b :: s =>
    if a = nl ∧ b = nl then ([] :: (splitBlocks s).1, (splitBlocks s).2)
    else match (splitBlocks (b :: s)).1 with
      | [] => ([], a :: (splitBlocks (b :: s)).2)
      | x :: xs => ((a :: x) :: xs, (splitBlocks (b :: s)).2)

variable {nl} {s t x r : List α}

/-- Where the first separator stands. -/
theorem eq_of_cutBlock (h : cutBlock nl s = some (x, r)) : s = x ++ nl :: nl :: r := by
  induction s using cutBlock.induct nl generalizing x r with
  | case1 => cases h
  | case2 => cases h
  | case3 a b s hnl =>
    rw [cutBlock, if_pos hnl] at h
    cases h
    rw [hnl.1, hnl.2]
    rfl
  | case4 a b s hnl ih =>
    rw [cutBlock, if_neg hnl] at h
    obtain ⟨p, hp, hx⟩ := Option.map_eq_some_iff.mp h
    cases hx
    rw [ih hp]
    rfl

/-- The first block is the first of all. -/
theorem splitBlocks_of_some (h : cutBlock nl s = some (x, r)) :
    splitBlocks nl s = (x :: (splitBlocks nl r).1, (splitBlocks nl r).2) := by
  induction s using cutBlock.induct nl generalizing x r with
  | case1 => cases h
  | case2 => cases h
  | case3 a b s hnl =>
    rw [cutBlock, if_pos hnl] at h
    cases h
    rw [splitBlocks, if_pos hnl]
  | case4 a b s hnl ih =>
    rw [cutBlock, if_neg hnl] at h
    obtain ⟨p, hp, hx⟩ := Option.map_eq_some_iff.mp h
    cases hx
    rw [splitBlocks, if_neg hnl, ih hp]

/-- A stream without separator is an open block. -/
theorem splitBlocks_of_none (h : cutBlock nl s = none) : splitBlocks nl s = ([], s) := by
  induction s using cutBlock.induct nl with
  | case1 => rfl
  | case2 => rfl
  | case3 a b s hnl =>
    rw [cutBlock, if_pos hnl] at h
    cases h
  | case4 a b s hnl ih =>
    rw [cutBlock, if_neg hnl] at h
    rw [splitBlocks, if_neg hnl, ih (Option.map_eq_none_iff.mp h)]

/-- A stream with a single newline at most, at its end, is an open block. -/
theorem cutBlock_of_not_mem (h : nl ∉ s) (hend : t = [] ∨ t = [nl]) : cutBlock nl (s ++ t) = none := by
  induction s with
  | nil => rcases hend with rfl | rfl <;> rfl
  | cons a s ih =>
    obtain ⟨ha, hs⟩ := not_or.mp (mt List.mem_cons.mpr h)
    have hrec := ih hs
    rw [List.cons_append]
    cases hst : s ++ t with
    | nil => rfl
    | cons b r =>
      rw [hst] at hrec
      rw [cutBlock, if_neg fun hnl => ha hnl.1.symm, hrec]
      rfl

/-- What follows does not move the first separator. -/
theorem cutBlock_append (h : cutBlock nl s = some (x, r)) (t : List α) :
    cutBlock nl (s ++ t) = some (x, r ++ t) := by
  induction s using cutBlock.induct nl generalizing x r with
  | case1 => cases h
  | case2 => cases h
  | case3 a b s hnl =>
    rw [cutBlock, if_pos hnl] at h
    cases h
    rw [List.cons_append, List.cons_append, cutBlock, if_pos hnl]
  | case4 a b s hnl ih =>
    rw [cutBlock, if_neg hnl] at h
    obtain ⟨p, hp, hx⟩ := Option.map_eq_some_iff.mp h
    cases hx
    have hrec := ih hp
    rw [List.cons_append] at hrec
    rw [List.cons_append, List.cons_append, cutBlock, if_neg hnl, hrec]
    rfl

/-- After an open block, the first separator is that of what follows, unless one lies across. -/
theorem cutBlock_open (h : cutBlock nl s = none)
    (hacross : s.getLast? = some nl → t.head? ≠ some nl) :
    cutBlock nl (s ++ t) = (cutBlock nl t).map fun p => (s ++ p.1, p.2) := by
  induction s using cutBlock.induct nl with
  | case1 => simp
  | case2 a =>
    cases t with
    | nil => rfl
    | cons b t =>
      have hnl : ¬ (a = nl ∧ b = nl) := by
        rintro ⟨rfl, rfl⟩
        exact hacross rfl rfl
      rw [List.singleton_append, cutBlock, if_neg hnl]
      rfl
  | case3 a b s hnl =>
    rw [cutBlock, if_pos hnl] at h
    cases h
  | case4 a b s hnl ih =>
    rw [cutBlock, if_neg hnl] at h
    have hrec := ih (Option.map_eq_none_iff.mp h) (by simpa using hacross)
    rw [List.cons_append] at hrec
    rw [List.cons_append, List.cons_append, cutBlock, if_neg hnl, hrec, Option.map_map]
    rfl

/-- The open block has no separator. -/
theorem cutBlock_splitBlocks (s : List α) : cutBlock nl (splitBlocks nl s).2 = none := by
  induction hn : s.length using Nat.strong_induction_on generalizing s with
  | _ n ih =>
    cases h : cutBlock nl s with
    | none => rw [splitBlocks_of_none h, h]
    | some p =>
      rw [splitBlocks_of_some h]
      refine ih p.2.length ?_ p.2 rfl
      rw [← hn, eq_of_cutBlock h]
      simp only [List.length_append, List.length_cons]
      omega

/-- A stream is split where it is cut: the open block goes on. -/
theorem splitBlocks_append (s t : List α) : splitBlocks nl (s ++ t) =
    ((splitBlocks nl s).1 ++ (splitBlocks nl ((splitBlocks nl s).2 ++ t)).1,
      (splitBlocks nl ((splitBlocks nl s).2 ++ t)).2) := by
  induction hn : s.length using Nat.strong_induction_on generalizing s with
  | _ n ih =>
    cases h : cutBlock nl s with
    | none =>
      rw [splitBlocks_of_none h]
      rfl
    | some p =>
      have hshort : p.2.length < n := by
        rw [← hn, eq_of_cutBlock h]
        simp only [List.length_append, List.length_cons]
        omega
      rw [splitBlocks_of_some h, splitBlocks_of_some (cutBlock_append h t), ih _ hshort p.2 rfl]
      rfl

end AgentCraft.Streams
