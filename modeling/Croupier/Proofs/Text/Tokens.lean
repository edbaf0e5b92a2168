/-
Tokens are the inverse of joining.

A text has one way to be cut at a delimiter, and each piece one core between the blanks at its ends.
The tokens are the cores that are not empty, in the order of the pieces. Since a token is its own
core and holds no delimiter, tokens that are joined by the delimiter are found again.
-/

import Croupier.Text.Tokens
import Mathlib.Data.List.TakeWhile

namespace Croupier.Text

variable {delimiter : UInt8} {text core : List UInt8}

/-! ### Cores -/

/-- Whether no end of a text is blank. -/
def Bare (text : List UInt8) : Prop :=
  (∀ byte ∈ text.head?, isBlank byte = false) ∧ ∀ byte ∈ text.getLast?, isBlank byte = false

/-- Whether a text is its core with blanks around it. -/
def IsCore (text core : List UInt8) : Prop :=
  ∃ front back, text = front ++ (core ++ back) ∧ Bare core ∧
    (∀ byte ∈ front, isBlank byte = true) ∧ ∀ byte ∈ back, isBlank byte = true

theorem dropWhile_of_head? (first : ∀ byte ∈ text.head?, isBlank byte = false) :
    text.dropWhile isBlank = text := by
  cases text with
  | nil => rfl
  | cons byte rest =>
      rw [List.dropWhile_cons_of_neg]
      rw [first byte rfl]
      exact Bool.false_ne_true

theorem isBlank_of_mem_head?_dropWhile {byte : UInt8}
    (first : byte ∈ (text.dropWhile isBlank).head?) : isBlank byte = false := by
  have kept := List.head?_dropWhile_not isBlank text
  rw [first] at kept
  exact kept

theorem isCore_trim (text : List UInt8) : IsCore text (trim text) := by
  -- The front is what is dropped first, the back what is then dropped of the reversed text.
  have cut := List.takeWhile_append_dropWhile (p := isBlank) (l := text)
  have cutBack := congrArg List.reverse (List.takeWhile_append_dropWhile (p := isBlank)
    (l := (text.dropWhile isBlank).reverse))
  rw [List.reverse_append, List.reverse_reverse] at cutBack
  refine ⟨text.takeWhile isBlank, ((text.dropWhile isBlank).reverse.takeWhile isBlank).reverse,
    ?_, ⟨?_, ?_⟩, fun byte => List.mem_takeWhile_imp, ?_⟩
  · exact cut.symm.trans (congrArg _ cutBack.symm)
  · intro byte first
    have begins : byte ∈ (text.dropWhile isBlank).head? := by
      rw [← cutBack, List.head?_append]
      exact Option.or_eq_some_iff.mpr (.inl first)
    exact isBlank_of_mem_head?_dropWhile begins
  · intro byte last
    unfold trim at last
    rw [List.getLast?_reverse] at last
    exact isBlank_of_mem_head?_dropWhile last
  · intro byte behind
    exact List.mem_takeWhile_imp (List.mem_reverse.mp behind)

theorem IsCore.eq_trim (isCore : IsCore text core) : core = trim text := by
  obtain ⟨front, back, rfl, bare, frontBlank, backBlank⟩ := isCore
  have behind : (core ++ back).dropWhile isBlank = core ++ back ∨ core = [] := by
    cases core with
    | nil => exact .inr rfl
    | cons byte rest => exact .inl (dropWhile_of_head? bare.1)
  unfold trim
  rw [List.dropWhile_append_of_pos frontBlank]
  rcases behind with kept | rfl
  · rw [kept, List.reverse_append, List.dropWhile_append_of_pos, dropWhile_of_head?,
      List.reverse_reverse]
    · rw [List.head?_reverse]
      exact bare.2
    · exact fun byte member => backBlank byte (List.mem_reverse.mp member)
  · rw [List.nil_append, List.dropWhile_eq_nil_iff.mpr backBlank]
    rfl

/-- What is trimmed once stays as it is. -/
theorem trim_trim (text : List UInt8) : trim (trim text) = trim text := by
  obtain ⟨_, _, _, bare, _⟩ := isCore_trim text
  refine (IsCore.eq_trim ⟨[], [], ?_, bare, ?_, ?_⟩).symm
  · rw [List.nil_append, List.append_nil]
  · exact fun _ member => absurd member List.not_mem_nil
  · exact fun _ member => absurd member List.not_mem_nil

theorem trim_sublist (text : List UInt8) : (trim text).Sublist text := by
  unfold trim
  rw [← List.reverse_sublist, List.reverse_reverse]
  exact (List.dropWhile_sublist _).trans (List.dropWhile_sublist _).reverse

/-! ### Pieces -/

/-- Whether a text falls into these parts at the delimiter. -/
structure Parted (delimiter : UInt8) (text : List UInt8) (parts : List (List UInt8)) : Prop where
  nonempty : parts ≠ []
  free : ∀ part ∈ parts, delimiter ∉ part
  joined : join [delimiter] parts = text

theorem pieces_eq_splitOn (delimiter : UInt8) (text : List UInt8) :
    pieces delimiter text = text.splitOn delimiter := by
  induction text with
  | nil => rfl
  | cons byte rest ih =>
      unfold pieces
      rw [ih, List.splitOn_cons_eq_if_modifyHead]
      by_cases same : byte = delimiter
      · rw [if_pos same, if_pos (beq_iff_eq.mpr same)]
      · rw [if_neg same, if_neg (fun equal => same (eq_of_beq equal))]
        cases split : rest.splitOn delimiter with
        | nil => exact absurd split (List.splitOn_ne_nil delimiter rest)
        | cons piece others => rfl

theorem join_eq_intercalate (connector : List UInt8) (words : List (List UInt8)) :
    join connector words = connector.intercalate words := by
  induction words with
  | nil => rfl
  | cons word rest ih =>
      cases rest with
      | nil => exact List.intercalate_singleton.symm
      | cons next others =>
          unfold join
          rw [ih, List.intercalate_cons_cons, List.append_assoc]

theorem not_mem_of_mem_pieces {part : List UInt8} (member : part ∈ pieces delimiter text) :
    delimiter ∉ part := by
  induction text generalizing part with
  | nil =>
      rw [List.mem_singleton.mp member]
      exact List.not_mem_nil
  | cons byte rest ih =>
      unfold pieces at member
      split at member
      · rcases List.mem_cons.mp member with rfl | later
        · exact List.not_mem_nil
        · exact ih later
      · rename_i other
        split at member
        · rename_i none
          rw [List.mem_singleton.mp member, List.mem_singleton]
          exact fun same => other same.symm
        · rename_i piece others cut
          rcases List.mem_cons.mp member with rfl | later
          · rw [List.mem_cons, not_or]
            exact ⟨fun same => other same.symm, ih (cut ▸ List.mem_cons_self)⟩
          · exact ih (cut ▸ List.mem_cons_of_mem piece later)

theorem parted_pieces (delimiter : UInt8) (text : List UInt8) :
    Parted delimiter text (pieces delimiter text) where
  nonempty := by
    rw [pieces_eq_splitOn]
    exact List.splitOn_ne_nil delimiter text
  free := fun _ => not_mem_of_mem_pieces
  joined := by
    rw [join_eq_intercalate, pieces_eq_splitOn]
    exact List.intercalate_splitOn delimiter

theorem Parted.eq_pieces {parts : List (List UInt8)} (parted : Parted delimiter text parts) :
    parts = pieces delimiter text := by
  rw [← parted.joined, join_eq_intercalate, pieces_eq_splitOn,
    List.splitOn_intercalate delimiter parted.free parted.nonempty]

/-! ### Tokens -/

/-- Whether a text can stand as a token. -/
structure IsToken (delimiter : UInt8) (text : List UInt8) : Prop where
  nonempty : text ≠ []
  trimmed : trim text = text
  free : delimiter ∉ text

theorem isToken_of_mem {token : List UInt8} (member : token ∈ tokens delimiter text) :
    IsToken delimiter token := by
  obtain ⟨member, some⟩ := List.mem_filter.mp member
  obtain ⟨part, partMember, rfl⟩ := List.mem_map.mp member
  refine ⟨?_, trim_trim part, ?_⟩
  · rintro none
    rw [none] at some
    cases some
  · exact fun inside => not_mem_of_mem_pieces partMember ((trim_sublist part).mem inside)

theorem tokens_join {words : List (List UInt8)} (able : ∀ word ∈ words, IsToken delimiter word) :
    tokens delimiter (join [delimiter] words) = words := by
  cases words with
  | nil => rfl
  | cons word rest =>
      have parted : Parted delimiter (join [delimiter] (word :: rest)) (word :: rest) :=
        ⟨List.cons_ne_nil word rest, fun part member => (able part member).free, rfl⟩
      have trimmed : (word :: rest).map trim = word :: rest :=
        (List.map_congr_left fun word member => (able word member).trimmed).trans (List.map_id _)
      unfold tokens
      rw [← parted.eq_pieces, trimmed, List.filter_eq_self]
      intro word member
      rw [Bool.not_eq_true', List.isEmpty_eq_false_iff]
      exact (able word member).nonempty

/-- Tokens that are joined by their delimiter are found again. In any text the tokens are the cores
of its parts at the delimiter, in the order of the parts and without the empty ones. -/
theorem tokens_exactly (delimiter : UInt8) :
    (∀ words, (∀ word ∈ words, IsToken delimiter word) →
      tokens delimiter (join [delimiter] words) = words) ∧
    (∀ part core, IsCore part core ↔ core = trim part) ∧
    ∀ text, (∀ token ∈ tokens delimiter text, IsToken delimiter token) ∧
      ∃ parts, Parted delimiter text parts ∧
        (∀ others, Parted delimiter text others → others = parts) ∧
        tokens delimiter text = (parts.map trim).filter (fun core => !core.isEmpty) := by
  refine ⟨fun words => tokens_join, fun part core => ⟨IsCore.eq_trim, ?_⟩, fun text => ⟨?_, ?_⟩⟩
  · rintro rfl
    exact isCore_trim part
  · exact fun token => isToken_of_mem
  · exact ⟨pieces delimiter text, parted_pieces delimiter text, fun others => Parted.eq_pieces, rfl⟩

/-- A blank as the delimiter. -/
theorem tokens_exactly_blank :
    (IsToken 32 [103, 111] ∧ IsToken 32 [49, 48]) ∧
    tokens 32 (join [32] [[103, 111], [49, 48]]) = [[103, 111], [49, 48]] ∧
    Parted 32 [103, 32] [[103], []] ∧
    tokens 32 [103, 32] = ([[103], []].map trim).filter (fun core => !core.isEmpty) := by
  have word : IsToken 32 [103, 111] := ⟨by decide, by decide, by decide⟩
  have number : IsToken 32 [49, 48] := ⟨by decide, by decide, by decide⟩
  have parted : Parted 32 [103, 32] [[103], []] := ⟨by decide, by decide, rfl⟩
  obtain ⟨found, _, cut⟩ := tokens_exactly 32
  obtain ⟨_, parts, _, only, cores⟩ := cut [103, 32]
  have same := only [[103], []] parted
  subst same
  refine ⟨⟨word, number⟩, found _ ?_, parted, cores⟩
  intro token member
  rcases List.mem_cons.mp member with rfl | last
  · exact word
  · rwa [List.mem_singleton.mp last]

end Croupier.Text
