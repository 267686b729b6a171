import FrozenDefaults.Session
import FrozenDefaults.Proofs.Agreeing
import FrozenDefaults.Proofs.Manifests

/-!
# When commands fail

The command `generate` first makes its listing and then delivers it. Up to there
it fails as the command `check` does, since the worlds always agree.
-/

namespace FrozenDefaults

namespace Command

section Parts

variable {m : Type → Type} [Monad m] (h : Host m) (path : String) (output : Option String)
  (overrides : Preferences) (verbose : Bool)

/-- What `generate` does before it writes. -/
def draft : ExceptT Failure m Listing := do
  let p := Progress.of verbose output.isNone
  tell h p banner
  let (s, c) ← loadCatalog h path overrides p
  tell h p ["\n[*] Emitting builder and reader defaults..."]
  attempt (.ofFault (Listing.ofCatalog s c))

/-- What `generate` does with its listing. -/
def deliver (l : Listing) : ExceptT Failure m Unit := do
  let p := Progress.of verbose output.isNone
  match output with
  | some file => writeOutput h file l.render
  | none => h.out l.render
  tell h p (blockLines l)
  if let some file := output then
    tell h p [s!"[✓] Wrote {file}"]
    outLine h "[✓] Code generation complete!"

theorem generate_eq [LawfulMonad m] : generate h path output overrides verbose =
    draft h path output overrides verbose >>= deliver h output verbose := by
  simp only [generate, draft, bind_assoc]
  rfl

end Parts

/-- The manifest that is read with `read`. -/
def parsed (read : String → Option String) (path : String) : Attempt Manifest :=
  match read path with
  | none => .error ⟨[s!"failed to read manifest {path}"], .inaccessible⟩
  | some text =>
    match parse? path text with
    | none => .error ⟨[s!"failed to parse manifest {path}"], .unreadable⟩
    | some manifest => .ok manifest

/-- The settings and the catalog of a manifest. -/
def collected (manifest : Manifest) (overrides : Preferences) :
    Attempt (Settings × Catalog .builder) := do
  let s := Settings.resolve manifest.options overrides
  .ofFault s.validate
  let c ← manifest.catalog s
  return (s, c)

/-- Run on a tree, the command leaves it as it is and ends with `r`. -/
def Answers {α : Type} (tree : FileTree) (m : ExceptT Failure (StateM Session) α) (r : Attempt α) :
    Prop :=
  ∀ s : Session, s.tree = tree → (m s).1 = r ∧ (m s).2.tree = tree

namespace Answers

variable {α β : Type} {tree : FileTree} {m : ExceptT Failure (StateM Session) α} {r : Attempt α}

theorem pure (x : α) : Answers tree (Pure.pure x) (.ok x) := fun _ hs => ⟨rfl, hs⟩

theorem attempt (r : Attempt α) : Answers tree (Command.attempt r) r := fun _ hs => ⟨rfl, hs⟩

theorem bind {k : α → ExceptT Failure (StateM Session) β} {q : α → Attempt β}
    (hm : Answers tree m r) (hk : ∀ x, r = .ok x → Answers tree (k x) (q x)) :
    Answers tree (m >>= k) (r >>= q) := by
  intro s hs
  obtain ⟨hr, ht⟩ := hm s hs
  have hrun : (m >>= k) s = ExceptT.bindCont k (m s).1 (m s).2 := rfl
  rw [hrun, hr]
  cases r with
  | ok x => exact hk x rfl _ ht
  | error f => exact ⟨rfl, ht⟩

theorem step {m : ExceptT Failure (StateM Session) Unit} (hm : Answers tree m (.ok ()))
    {k : Unit → ExceptT Failure (StateM Session) β} {q : Attempt β} (hk : Answers tree (k ()) q) :
    Answers tree (m >>= k) q :=
  hm.bind (q := fun _ => q) fun _ _ => hk

theorem tell (p : Progress) (lines : List String) :
    Answers tree (Command.tell Session.host p lines) (.ok ()) := by
  intro s hs
  cases p <;> exact ⟨rfl, hs⟩

theorem outLine (line : String) : Answers tree (Command.outLine Session.host line) (.ok ()) :=
  fun _ hs => ⟨rfl, hs⟩

theorem loadManifest (path : String) :
    Answers tree (Command.loadManifest Session.host path) (parsed tree.read? path) := by
  have hread : Answers tree (Session.host.read path) (.ok (tree.read? path)) := by
    intro s hs
    exact ⟨congrArg (fun t : FileTree => Except.ok (t.read? path)) hs, hs⟩
  unfold Command.loadManifest
  refine hread.bind (q := fun text => parsed (fun _ => text) path) fun text _ => ?_
  unfold parsed
  cases text with
  | none => exact attempt _
  | some text =>
    cases hp : parse? path text with
    | none => simp only [hp]; exact attempt _
    | some manifest => simp only [hp]; exact pure _

theorem loadCatalog (path : String) (overrides : Preferences) (p : Progress) :
    Answers tree (Command.loadCatalog Session.host path overrides p)
      (parsed tree.read? path >>= fun manifest => collected manifest overrides) := by
  refine step (tell p _) ((loadManifest path).bind fun manifest _ => ?_)
  refine (attempt _).bind fun _ _ => step (tell p _) ((attempt _).bind fun c _ => ?_)
  exact step (tell p _) (pure _)

theorem draft (path : String) (output : Option String) (overrides : Preferences)
    (verbose : Bool) : Answers tree (Command.draft Session.host path output overrides verbose)
      (parsed tree.read? path >>= fun manifest => collected manifest overrides >>= fun e =>
        .ofFault (Listing.ofCatalog e.1 e.2)) := by
  rw [← bind_assoc]
  exact step (tell _ _) ((loadCatalog path overrides _).bind fun e _ => step (tell _ _) (attempt _))

theorem check (path : String) (verbose : Bool) :
    Answers tree (Command.check Session.host path verbose)
      (parsed tree.read? path >>= fun manifest => collected manifest .none >>= fun e =>
        Agreement.verify e.1 e.2 >>= fun _ => .ok ()) := by
  rw [← bind_assoc]
  refine (loadCatalog path .none _).bind fun e _ => (attempt _).bind fun _ _ => ?_
  exact outLine _

end Answers

theorem collected_eq_ok {manifest : Manifest} {overrides : Preferences} {s : Settings}
    {c : Catalog .builder} (h : collected manifest overrides = .ok (s, c)) :
    s = .resolve manifest.options overrides ∧ s.validate = .ok () ∧ manifest.catalog s = .ok c := by
  obtain ⟨_, hv, h⟩ := bind_eq_ok_iff.1 h
  obtain ⟨c', hc, h⟩ := bind_eq_ok_iff.1 h
  obtain ⟨rfl, rfl⟩ := Prod.mk.inj (Except.ok.inj h)
  exact ⟨rfl, Manifest.ofFault_eq_ok_iff.1 hv, hc⟩

/-- Nothing fails once a catalog is collected. -/
theorem collected_agrees {manifest : Manifest} {overrides : Preferences} {s : Settings}
    {c : Catalog .builder} (h : collected manifest overrides = .ok (s, c))
    (hs : c.arena.totalSize < 2 ^ 32) :
    (∃ l, Listing.ofCatalog s c = .ok l) ∧ ∃ r, Agreement.verify s c = .ok r := by
  obtain ⟨_, hv, hc⟩ := collected_eq_ok h
  obtain ⟨_, table, _, hsealed, _, _⟩ := Manifest.catalog_eq_ok hc
  obtain ⟨_, hverify⟩ := Agreement.verify_eq_ok hsealed hs hv
  exact ⟨Agreement.exists_listing hsealed hs hv, _, hverify⟩

theorem check_error_iff (session : Session) (path : String) (output : Option String)
    (verbose verbose' : Bool) (hs : ∀ manifest c, parsed session.tree.read? path = .ok manifest →
      manifest.catalog (.resolve manifest.options .none) = .ok c → c.arena.totalSize < 2 ^ 32)
    (f : Failure) : (session.check path verbose).1 = .error f ↔
      (draft Session.host path output .none verbose' session).1 = .error f := by
  -- Both commands read and collect the same, and what comes after that does not fail.
  rw [(Answers.draft path output .none verbose' session rfl).1]
  have hcheck := (Answers.check path verbose session rfl).1
  unfold Session.check
  rw [hcheck]
  cases hp : parsed session.tree.read? path with
  | error g => simp only [error_bind, Except.error.injEq]
  | ok manifest =>
    cases hc : collected manifest .none with
    | error g => simp only [ok_bind, hc, error_bind, Except.error.injEq]
    | ok e =>
      obtain ⟨s, c⟩ := e
      obtain ⟨rfl, _, hcatalog⟩ := collected_eq_ok hc
      obtain ⟨⟨l, hl⟩, r, hr⟩ := collected_agrees hc (hs manifest c hp hcatalog)
      simp only [ok_bind, hc, hl, hr]
      exact ⟨fun h => (by cases h), fun h => (by cases h)⟩

end Command

namespace Agreement

/-- What additions have collected always agrees with its transcription for the reader. The command
`check` fails as `generate` does before it writes. -/
theorem verify_never_disagrees :
    (∀ (s : Settings) (c : Catalog .builder), s.newCatalog.Filled c →
      c.arena.totalSize < 2 ^ 32 → s.validate = .ok () →
      ∃ r, verify s c = .ok r ∧ r.entries = c.size ∧ r.readerBytes ≤ r.builderBytes) ∧
    ∀ (session : Session) (path : String) (output : Option String) (verbose verbose' : Bool),
      (∀ manifest c, Command.parsed session.tree.read? path = .ok manifest →
        manifest.catalog (.resolve manifest.options .none) = .ok c →
        c.arena.totalSize < 2 ^ 32) →
      Command.generate Session.host path output .none verbose' =
          Command.draft Session.host path output .none verbose' >>=
            Command.deliver Session.host output verbose' ∧
        (Command.draft Session.host path output .none verbose' session).2.tree = session.tree ∧
        ∀ f, (session.check path verbose).1 = .error f ↔
          (Command.draft Session.host path output .none verbose' session).1 = .error f :=
  ⟨fun _ _ h hs hv => verify_ok h hs hv, fun session path output verbose verbose' hs =>
    ⟨Command.generate_eq _ _ _ _ _,
      (Command.Answers.draft path output .none verbose' session rfl).2,
      Command.check_error_iff session path output verbose verbose' hs⟩⟩

/-- A manifest with one null pointer. -/
def sampleManifest : Manifest :=
  ⟨.none, ["0000000000000000"], [⟨1, "a", .pointer ⟨0, 0, 8⟩⟩]⟩

def sampleSession : Session := .ofTree ⟨[(["m.json"], sampleManifest.toJson.render)], []⟩

theorem verify_never_disagrees_sample :
    (∃ r, verify ⟨"rt", 64, 0, 64⟩ .sample = .ok r ∧ r.entries = Catalog.sample.size ∧
      r.readerBytes ≤ r.builderBytes) ∧
    ∀ f, (sampleSession.check "m.json" false).1 = .error f ↔
      (Command.draft Session.host "m.json" none .none true sampleSession).1 = .error f := by
  have hread : Command.parsed sampleSession.tree.read? "m.json" = .ok sampleManifest := by
    decide +kernel
  have hsize : (sampleManifest.catalog (.resolve sampleManifest.options .none)).map
      (·.arena.totalSize) = .ok 8 := by decide +kernel
  refine ⟨?_, (verify_never_disagrees.2 sampleSession "m.json" none false true ?_).2.2⟩
  · exact verify_never_disagrees.1 ⟨"rt", 64, 0, 64⟩ .sample Catalog.filled_sample
      (by decide +kernel) rfl
  · intro manifest c hm hc
    rw [hread] at hm
    obtain rfl := Except.ok.inj hm
    rw [hc] at hsize
    have hsize : c.arena.totalSize = 8 := Except.ok.inj hsize
    omega

end Agreement

end FrozenDefaults
