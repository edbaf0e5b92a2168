/-
Legal actions are carried out.

Whatever came before in a run, the offers are made from the table as it is and carrying out a
move looks at the same table, so a move on offer is not refused. The same holds at a table that
the active participant imagines: only hidden cards are exchanged there, and what the offers
presuppose is in plain sight.
-/

import Croupier.Proofs.Play.Tricks
import Croupier.Strategy.Imagine

namespace Croupier

namespace Table

variable {table next : Table} {seat : Int} {program : Program} {generator : Generator}

/-! ### Imagined tables -/

/-- Refilling the hands leaves the participant who keeps the hand as before. -/
theorem getElem?_refillHands {keeper : Int} {players : List Player} {seat : Int}
    {cards : List Card} {place : Nat} (kept : seat + place = keeper) :
    (refillHands keeper players seat cards)[place]? = players[place]? := by
  induction players generalizing seat cards place with
  | nil => rfl
  | cons player rest ih =>
      unfold refillHands
      cases place with
      | zero =>
          rw [if_pos (by simpa using kept)]
          rfl
      | succ place =>
          have onwards : seat + 1 + place = keeper := by
            push_cast at kept
            omega
          split
          · exact ih onwards
          · exact ih onwards

theorem hand_imagine (taken : 0 ≤ seat) :
    (table.imagine seat generator).1.hand seat = table.hand seat := by
  have kept : (0 : Int) + seat.toNat = seat := by omega
  have same (cards : List Card) :
      (table.redistribute seat cards).hand seat = table.hand seat := by
    unfold hand player redistribute
    rw [if_neg (by omega), if_neg (by omega), List.getD_eq_getElem?_getD,
      getElem?_refillHands kept, List.getD_eq_getElem?_getD]
  exact same _

/-- Offers presuppose nothing but the own hand and the claim. -/
theorem Offered.of_same {phase : Phase} {choice : Choice}
    (offered : table.Offered seat phase choice) (hand : next.hand seat = table.hand seat)
    (claim : next.claim = table.claim) : next.Offered seat phase choice := by
  have holds {place : Int} {card : Card} (held : table.HasCard seat place card) :
      next.HasCard seat place card := by
    unfold HasCard
    rw [hand]
    exact held
  cases offered with
  | draw => exact .draw
  | play held => exact .play (holds held)
  | discard held => exact .discard (holds held)
  | trick held => exact .trick (holds held)
  | bet known => exact .bet known
  | claim held => exact .claim (holds held)
  | challenge pending =>
      rw [← claim] at pending
      exact .challenge pending
  | accept => exact .accept
  | bid => exact .bid
  | pass => exact .pass

/-- A move on offer can be tried out at an imagined table. -/
theorem exists_perform_imagine {move : Move} (taken : 0 ≤ table.active)
    (member : move ∈ table.moves program) (generator : Generator) :
    ∃ outcome next,
      Play.perform program move (table.imagine table.active generator).1 = .ok outcome next := by
  obtain ⟨phase, choice, found, rfl, offered⟩ := offered_of_mem_moves member
  have pictured : (table.imagine table.active generator).1.Offered table.active phase choice :=
    offered.of_same (hand_imagine taken) rfl
  exact Offered.exists_perform pictured found

end Table

/-! ### Runs -/

/-- At every state of a legal run in which nobody has won, the table is in order, a trick has a
contributor for each of its cards, and no legal action is refused, nor a move on offer at the
table as the active participant imagines it. -/
theorem Reached.legal_step_succeeds {program : Program} {bytes : List UInt8} {seed : UInt64}
    {table : Table} (accepted : Program.decode bytes = .ok program) (apart : program.TricksApart)
    (reached : Reached program seed .open table) :
    table.Orderly ∧
      (program.hasPhase .trick = true → table.Matched) ∧
      (∀ move ∈ table.moves program,
        ∃ outcome next, Play.perform program move table = .ok outcome next) ∧
      (table.moves program = [] → table.canPass program = true →
        ∃ outcome next, Play.pass program table = .ok outcome next) ∧
      ∀ generator, ∀ move ∈ table.moves program, ∃ outcome next,
        Play.perform program move (table.imagine table.active generator).1 =
          .ok outcome next := by
  have orderly := reached.orderly (Program.inRange_of_decode accepted)
  refine ⟨orderly, fun tricks => reached.matched apart tricks, ?_, ?_, ?_⟩
  · exact fun move member => Table.exists_perform_of_mem_moves member
  · exact fun _ allowed => Table.exists_pass_of_canPass allowed
  · exact fun generator move member =>
      Table.exists_perform_imagine orderly.active.1 member generator

/-- A game in which a turn is to draw a card and to contribute one to a trick. -/
def drawAndFollow : Program where
  phases := [.draw {}, .trick {}]

theorem Reached.legal_step_succeeds_drawAndFollow :
    Program.decode drawAndFollow.encode = .ok drawAndFollow ∧ drawAndFollow.TricksApart ∧
      ∃ table, Reached drawAndFollow 7 .open table ∧ table.Orderly ∧ table.Matched ∧
        ⟨table.phase, .draw .deck⟩ ∈ table.moves drawAndFollow ∧
        (∃ outcome next,
          Play.perform drawAndFollow ⟨table.phase, .draw .deck⟩ table = .ok outcome next) ∧
        ∀ generator, ∃ outcome next,
          Play.perform drawAndFollow ⟨table.phase, .draw .deck⟩
            (table.imagine table.active generator).1 = .ok outcome next := by
  have accepted : Program.decode drawAndFollow.encode = .ok drawAndFollow := by decide +kernel
  have apart : drawAndFollow.TricksApart := by decide
  have dealt := Table.start_of_decode accepted 7 {}
  have offered := Table.draw_mem_moves (Table.phase?_opening drawAndFollow 7) rfl rfl
  obtain ⟨orderly, matched, moved, _, imagined⟩ :=
    legal_step_succeeds accepted apart (.start dealt)
  exact ⟨accepted, apart, _, .start dealt, orderly, matched (by decide), offered,
    moved _ offered, fun generator => imagined generator _ offered⟩

end Croupier
