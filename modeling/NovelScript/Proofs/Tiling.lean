import NovelScript.Bytes

/-!
# Byte strings laid end to end

A script is a row of pieces, each of which stands where the one before it ends. `Tiles` says so of
any list whose members have a position and some bytes. The pieces then lie in order, no two of them
share an address, none of the addresses in between is left out, and each piece can be read off the
whole at its position.

The same list can tile two byte strings at once, an old and a new one, and that is how the later
files use it.
-/

set_option autoImplicit false

namespace NovelScript

variable {α : Type} {position : α → Nat} {bytes : α → Bytes}

/-- Whether the members of a list stand end to end, the first one at `start`. -/
def Tiles (position : α → Nat) (bytes : α → Bytes) : (start : Nat) → List α → Prop
  | _, [] => True
  | start, piece :: pieces =>
    position piece = start ∧ Tiles position bytes (start + (bytes piece).length) pieces

namespace Tiles

variable {start : Nat} {pieces : List α} {piece other : α}

/-- The position of a piece is reached by laying down the pieces before it. -/
theorem position_eq {front back : List α}
    (tiles : Tiles position bytes start (front ++ piece :: back)) :
    position piece = start + (front.flatMap bytes).length := by
  induction front generalizing start with
  | nil => simpa [Tiles] using tiles.1
  | cons first front ih =>
    rw [ih tiles.2, List.flatMap_cons, List.length_append]
    omega

/-- The first pieces of a row stand end to end. -/
theorem front {front back : List α} (tiles : Tiles position bytes start (front ++ back)) :
    Tiles position bytes start front := by
  induction front generalizing start with
  | nil => trivial
  | cons first front ih => exact ⟨tiles.1, ih tiles.2⟩

/-- Every piece stands inside the row. -/
theorem bounds (tiles : Tiles position bytes start pieces) (member : piece ∈ pieces) :
    start ≤ position piece ∧
      position piece + (bytes piece).length ≤ start + (pieces.flatMap bytes).length := by
  obtain ⟨front, back, rfl⟩ := List.append_of_mem member
  rw [tiles.position_eq]
  simp only [List.flatMap_append, List.flatMap_cons, List.length_append]
  omega

/-- A piece can be read off the row at its position. -/
theorem drop_eq (tiles : Tiles position bytes start pieces) (member : piece ∈ pieces) :
    ∃ rest, (pieces.flatMap bytes).drop (position piece - start) = bytes piece ++ rest := by
  obtain ⟨front, back, rfl⟩ := List.append_of_mem member
  refine ⟨back.flatMap bytes, ?_⟩
  rw [tiles.position_eq, Nat.add_sub_cancel_left, List.flatMap_append, List.drop_left,
    List.flatMap_cons]

/-- Where the pieces are part of something longer, a piece can be read off that too. -/
theorem drop_position_eq {data rest : Bytes} (tiles : Tiles position bytes start pieces)
    (member : piece ∈ pieces) (laid : data.drop start = pieces.flatMap bytes ++ rest) :
    ∃ rest, data.drop (position piece) = bytes piece ++ rest := by
  obtain ⟨behind, spelled⟩ := tiles.drop_eq member
  obtain ⟨low, high⟩ := tiles.bounds member
  refine ⟨behind ++ rest, ?_⟩
  rw [← Nat.add_sub_cancel' low, ← List.drop_drop, laid, List.drop_append_of_le_length (by omega),
    spelled, List.append_assoc]

/-- Every piece ends before the later ones start. -/
theorem pairwise (tiles : Tiles position bytes start pieces) :
    pieces.Pairwise fun a b => position a + (bytes a).length ≤ position b := by
  induction pieces generalizing start with
  | nil => exact .nil
  | cons first pieces ih =>
    refine .cons ?_ (ih tiles.2)
    intro later member
    rw [tiles.1]
    exact (tiles.2.bounds member).1

/-- Every address of the row belongs to a piece. -/
theorem exists_mem (tiles : Tiles position bytes start pieces) {address : Nat}
    (low : start ≤ address) (high : address < start + (pieces.flatMap bytes).length) :
    ∃ piece ∈ pieces, position piece ≤ address ∧
      address < position piece + (bytes piece).length := by
  induction pieces generalizing start with
  | nil =>
    simp only [List.flatMap_nil, List.length_nil] at high
    omega
  | cons first pieces ih =>
    obtain ⟨hfirst, tiles⟩ := tiles
    by_cases inside : address < start + (bytes first).length
    · exact ⟨first, by simp, by omega, by omega⟩
    · rw [List.flatMap_cons, List.length_append] at high
      obtain ⟨piece, member, range⟩ := ih tiles (by omega) (by omega)
      exact ⟨piece, by simp [member], range⟩

/-- Two pieces are the same, or one of them ends before the other starts. -/
theorem trichotomy (tiles : Tiles position bytes start pieces) (member : piece ∈ pieces)
    (otherMember : other ∈ pieces) :
    piece = other ∨ position piece + (bytes piece).length ≤ position other ∨
      position other + (bytes other).length ≤ position piece := by
  induction pieces generalizing start with
  | nil => simp at member
  | cons first pieces ih =>
    obtain ⟨hfirst, tiles⟩ := tiles
    rcases List.mem_cons.mp member with rfl | inTail <;>
      rcases List.mem_cons.mp otherMember with rfl | otherInTail
    · exact .inl rfl
    · exact .inr (.inl (hfirst ▸ (tiles.bounds otherInTail).1))
    · exact .inr (.inr (hfirst ▸ (tiles.bounds inTail).1))
    · exact ih tiles inTail otherInTail

/-- The pieces may get other bytes of the same lengths. -/
theorem congr_length {bytes' : α → Bytes} (tiles : Tiles position bytes start pieces)
    (lengths : ∀ a ∈ pieces, (bytes' a).length = (bytes a).length) :
    Tiles position bytes' start pieces := by
  induction pieces generalizing start with
  | nil => trivial
  | cons first pieces ih =>
    refine ⟨tiles.1, ?_⟩
    rw [lengths first (by simp)]
    exact ih tiles.2 fun a ha => lengths a (by simp [ha])

end Tiles

end NovelScript
