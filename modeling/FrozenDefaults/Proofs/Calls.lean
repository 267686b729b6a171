import FrozenDefaults.Proofs.Reachable

/-!
# Calls to an arena

A call allocates a region or writes to what is in use, and it may be refused.
What a call can do is said once, in `perform_cases`.
-/

namespace FrozenDefaults

namespace Arena

inductive Call where
  | alloc (n : Nat)
  | allocIn (segment n : Nat)
  | write (s : Span) (bs : List UInt8)
  | writeWord (segment word : Nat) (w : Word)
  deriving DecidableEq

inductive Reply where
  | region (r : Span)
  | written
  | refused
  deriving DecidableEq

namespace Call

def size? : Call → Option Nat
  | alloc n | allocIn _ n => some n
  | write _ _ | writeWord _ _ _ => none

/-- What a write puts where. -/
def payload? : Call → Option (Span × List UInt8)
  | alloc _ | allocIn _ _ => none
  | write s bs => some (s, bs)
  | writeWord segment word w => some (wordSpan segment word, Word.toBytes w)

end Call

/-- The reply to a call, and the arena after it. -/
def perform (a : Arena) : Call → Reply × Arena
  | .alloc n => (.region (a.alloc n).1, (a.alloc n).2)
  | .allocIn segment n =>
    match a.allocIn segment n with
    | (some r, b) => (.region r, b)
    | (none, b) => (.refused, b)
  | .write s bs =>
    match Building.write s bs a with
    | (.ok _, b) => (.written, b)
    | (.error _, b) => (.refused, b)
  | .writeWord segment word w =>
    match Building.writeWord segment word w a with
    | (.ok _, b) => (.written, b)
    | (.error _, b) => (.refused, b)

/-- The calls with their replies, and the arena after them. -/
def performAll (a : Arena) : List Call → List (Call × Reply) × Arena
  | [] => ([], a)
  | call :: calls =>
    let (reply, b) := a.perform call
    let (log, c) := b.performAll calls
    ((call, reply) :: log, c)

/-- The arenas that a run of calls can begin with. -/
inductive Built : Arena → Prop
  | withCapacity (n : Nat) : Built (.withCapacity n)
  | ofSegments {segments : List (List UInt8)} {a : Arena} (h : ofSegments segments = .ok a) :
      Built a
  | ofSegmentsWithCapacity {segments : List (List UInt8)} {capacity : Nat} {a : Arena}
      (h : ofSegmentsWithCapacity segments capacity = .ok a) : Built a

variable {a start : Arena}

theorem Built.reachable (h : start.Built) : start.Reachable := by
  cases h with
  | withCapacity n => exact .withCapacity n
  | ofSegments h => exact .ofSegments h
  | ofSegmentsWithCapacity h => exact .ofSegmentsWithCapacity h

/-- What a call can do: hand out a new region, write what it was given, or nothing. -/
theorem perform_cases (a : Arena) (call : Call) :
    (∃ n r b, call.size? = some n ∧ a.perform call = (.region r, b) ∧ Fresh a (roundUp n) r b) ∨
    (∃ s bs, call.payload? = some (s, bs) ∧ a.Holds s ∧ bs.length = s.length ∧
      a.perform call = (.written, a.patch s bs)) ∨
    a.perform call = (.refused, a) := by
  cases call with
  | alloc n => exact .inl ⟨n, _, _, rfl, rfl, fresh_alloc a n⟩
  | allocIn segment n =>
    rcases allocIn_cases a segment n with h | ⟨r, b, h, _, hf⟩
    · exact .inr (.inr (by rw [perform, h]))
    · exact .inl ⟨n, r, b, rfl, by rw [perform, h], hf⟩
  | write s bs =>
    rcases write_cases a s bs with ⟨hs, hl, h⟩ | ⟨_, f, h⟩
    · exact .inr (.inl ⟨s, bs, rfl, hs, hl, by rw [perform, h]⟩)
    · exact .inr (.inr (by rw [perform, h]))
  | writeWord segment word w =>
    rcases write_cases a (wordSpan segment word) (Word.toBytes w) with ⟨hs, hl, h⟩ | ⟨_, f, h⟩
    · exact .inr (.inl ⟨_, _, rfl, hs, hl, by rw [perform, Building.writeWord, h]⟩)
    · exact .inr (.inr (by rw [perform, Building.writeWord, h]))

/-- What holds after every kind of step holds after every call. -/
theorem perform_induction {motive : Arena → Prop} (refused : motive a)
    (patch : ∀ s bs, motive (a.patch s bs)) (allocIn : ∀ segment n, motive (a.allocIn segment n).2)
    (alloc : ∀ n, motive (a.alloc n).2) (call : Call) : motive (a.perform call).2 := by
  cases call with
  | alloc n => exact alloc n
  | allocIn segment n =>
    have hin := allocIn segment n
    cases h : a.allocIn segment n with
    | mk r b =>
      rw [h] at hin
      cases r <;> (rw [perform, h]; exact hin)
  | write s bs =>
    rcases write_cases a s bs with ⟨_, _, h⟩ | ⟨_, f, h⟩ <;> rw [perform, h]
    · exact patch s bs
    · exact refused
  | writeWord segment word w =>
    rcases write_cases a (wordSpan segment word) (Word.toBytes w) with ⟨_, _, h⟩ | ⟨_, f, h⟩ <;>
      rw [perform, Building.writeWord, h]
    · exact patch _ _
    · exact refused

theorem evolves_perform (a : Arena) (call : Call) : Evolves a (a.perform call).2 :=
  perform_induction (.refl a) a.evolves_patch a.evolves_allocIn a.evolves_alloc call

theorem evolves_performAll (a : Arena) (calls : List Call) : Evolves a (a.performAll calls).2 := by
  induction calls generalizing a with
  | nil => exact .refl a
  | cons call calls ih => exact (a.evolves_perform call).trans (ih _)

end Arena

end FrozenDefaults
