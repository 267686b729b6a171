import FrozenDefaults.Proofs.Commands

/-!
# Delivery of listings

The command `generate` prints or writes its listing whole, or nothing of it. Until
the listing is made the files stay as they are, and nothing is printed where the
listing is to be printed.
-/

namespace FrozenDefaults

namespace FileTree

variable {t t' : FileTree} {path text : String}

theorem files_enterFolder? {s s' : FileTree × List String} {part : String}
    (h : enterFolder? s part = some s') : s'.1.files = s.1.files := by
  obtain ⟨p, _, h⟩ := Option.bind_eq_some_iff.1 h
  split at h
  · rw [← Option.some.inj h]
  · split at h
    · cases h
    · rw [← Option.some.inj h]

theorem files_foldlM_enterFolder? {parts : List String} {s s' : FileTree × List String}
    (h : parts.foldlM enterFolder? s = some s') : s'.1.files = s.1.files := by
  induction parts generalizing s with
  | nil => rw [← Option.some.inj h]
  | cons part parts ih =>
    rw [List.foldlM_cons] at h
    obtain ⟨_, hpart, h⟩ := Option.bind_eq_some_iff.1 h
    exact (ih h).trans (files_enterFolder? hpart)

theorem files_makeFolders? (h : t.makeFolders? path = some t') : t'.files = t.files := by
  obtain ⟨parts, _, h⟩ := Option.bind_eq_some_iff.1 h
  obtain ⟨s, hs, h⟩ := Option.bind_eq_some_iff.1 h
  rw [← Option.some.inj h]
  exact files_foldlM_enterFolder? hs

/-- The tree with the folder in which a file is to lie. -/
def withFolderOf? (t : FileTree) (file : String) : Option FileTree :=
  match Path.parent? file with
  | none | some "" => some t
  | some folder => t.makeFolders? folder

/-- A file can be written if its folder is there or can be made, and its path leads to no folder
then. -/
def Writable (t : FileTree) (file : String) : Prop :=
  ∃ t' p, t.withFolderOf? file = some t' ∧ t'.locate? file = some p ∧ t'.isFolder p = false

theorem files_withFolderOf? (h : t.withFolderOf? path = some t') : t'.files = t.files := by
  unfold withFolderOf? at h
  split at h
  · rw [← Option.some.inj h]
  · rw [← Option.some.inj h]
  · exact files_makeFolders? h

section Write

variable (p : List String)

/-- The tree with one file more, or with other text in a file. -/
def withFile (t : FileTree) (text : String) : FileTree :=
  { t with files := (p, text) :: t.files.filter (·.1 != p) }

variable {p}

theorem isFolder_withFile {q : List String} (h : t.isFolder q = true) :
    (t.withFile p text).isFolder q = true := by
  simp only [isFolder, Bool.or_eq_true] at h ⊢
  refine h.imp id fun h => ?_
  obtain ⟨f, hf, hq⟩ := List.any_eq_true.1 h
  by_cases hp : f.1 = p
  · exact List.any_eq_true.2 ⟨(p, text), List.mem_cons_self, hp ▸ hq⟩
  · have hkept : f ∈ t.files.filter (·.1 != p) := List.mem_filter.2 ⟨hf, bne_iff_ne.2 hp⟩
    exact List.any_eq_true.2 ⟨f, List.mem_cons_of_mem _ hkept, hq⟩

theorem lookup_withFile_self : (t.withFile p text).files.lookup p = some text := by
  rw [withFile, List.lookup_cons_self]

theorem lookup_withFile_of_ne {q : List String} (hq : q ≠ p) :
    (t.withFile p text).files.lookup q = t.files.lookup q := by
  have hother : ∀ files : List (List String × String),
      (files.filter (·.1 != p)).lookup q = files.lookup q := by
    intro files
    induction files with
    | nil => rfl
    | cons f files ih =>
      by_cases hf : f.1 = p
      · have hne : (q == f.1) = false := beq_eq_false_iff_ne.2 (hf ▸ hq)
        rw [List.filter_cons_of_neg (by simp [hf]), ih, List.lookup_cons, hne]
      · rw [List.filter_cons_of_pos (by simp [hf]), List.lookup_cons, List.lookup_cons, ih]
  rw [withFile, List.lookup_cons, beq_eq_false_iff_ne.2 hq]
  exact hother t.files

theorem write?_eq (hp : t.locate? path = some p) (hf : t.isFolder p = false) :
    t.write? path text = some (t.withFile p text) := by
  rw [write?, hp]
  exact if_neg (by rw [hf]; exact Bool.false_ne_true)

end Write

section Locate

variable (hmono : ∀ q, t.isFolder q = true → t'.isFolder q = true)
include hmono

theorem descend?_mono {p q : List String} {part : String} (h : t.descend? p part = some q) :
    t'.descend? p part = some q := by
  cases hp : t.isFolder p with
  | false =>
    rw [descend?, hp] at h
    cases h
  | true =>
    rw [descend?, hp] at h
    rw [descend?, hmono p hp]
    exact h

/-- A path goes on leading where it leads while there are more folders. -/
theorem locate?_mono {p : List String} (h : t.locate? path = some p) :
    t'.locate? path = some p := by
  obtain ⟨parts, hparts, h⟩ := Option.bind_eq_some_iff.1 h
  have hfold : ∀ {parts : List String} {q : List String}, parts.foldlM t.descend? q = some p →
      parts.foldlM t'.descend? q = some p := by
    intro parts
    induction parts with
    | nil => exact id
    | cons part parts ih =>
      intro q h
      rw [List.foldlM_cons] at h ⊢
      obtain ⟨q', hq', h⟩ := Option.bind_eq_some_iff.1 h
      exact Option.bind_eq_some_iff.2 ⟨q', descend?_mono hmono hq', ih h⟩
  exact Option.bind_eq_some_iff.2 ⟨parts, hparts, hfold h⟩

end Locate

/-- The tree is another one in which a file has this text. All other files are as they were. -/
structure Receives (t : FileTree) (path text : String) (t' : FileTree) : Prop where
  read : t'.read? path = some text
  others : ∃ p, t'.locate? path = some p ∧ ∀ q, q ≠ p → t'.files.lookup q = t.files.lookup q

theorem receives_withFile {p : List String} (hp : t.locate? path = some p) :
    t.Receives path text (t.withFile p text) := by
  have hp' : (t.withFile p text).locate? path = some p :=
    locate?_mono (fun _ hq => isFolder_withFile hq) hp
  refine ⟨?_, p, hp', fun q hq => lookup_withFile_of_ne hq⟩
  rw [read?, hp']
  exact lookup_withFile_self

end FileTree

namespace Command

section Runs

variable {α β : Type} {path text : String} {s s' : Session}

theorem bind_of_ok {m : ExceptT Failure (StateM Session) α} {x : α} (h : m s = (.ok x, s'))
    (k : α → ExceptT Failure (StateM Session) β) : (m >>= k) s = k x s' := by
  have hrun : (m >>= k) s = ExceptT.bindCont k (m s).1 (m s).2 := rfl
  rw [hrun, h]
  rfl

theorem bind_of_error {m : ExceptT Failure (StateM Session) α} {f : Failure}
    (h : m s = (.error f, s')) (k : α → ExceptT Failure (StateM Session) β) :
    (m >>= k) s = (.error f, s') := by
  have hrun : (m >>= k) s = ExceptT.bindCont k (m s).1 (m s).2 := rfl
  rw [hrun, h]
  rfl

theorem lift_change {m : StateM Session Bool} {tree : FileTree}
    (h : m s = s.change (some tree)) :
    (m : ExceptT Failure (StateM Session) Bool) s = (.ok true, { s with tree }) :=
  congrArg (fun r : Bool × Session => (Except.ok r.1, r.2)) h

theorem writeOutput_of_writable (h : s.tree.Writable path) (text : String) : ∃ tree,
    writeOutput Session.host path text s = (.ok (), { s with tree }) ∧
      s.tree.Receives path text tree := by
  obtain ⟨t, p, hfolder, hp, hf⟩ := h
  have hwrite : (Session.host.write path text : ExceptT Failure (StateM Session) Bool)
      { s with tree := t } = (.ok true, { s with tree := t.withFile p text }) :=
    lift_change (congrArg (Session.change { s with tree := t }) (FileTree.write?_eq hp hf))
  refine ⟨t.withFile p text, ?_, ?_⟩
  · unfold writeOutput
    unfold FileTree.withFolderOf? at hfolder
    split at hfolder <;> rename_i hparent <;> rw [hparent]
    · obtain rfl := Option.some.inj hfolder
      exact bind_of_ok hwrite _
    · obtain rfl := Option.some.inj hfolder
      exact bind_of_ok hwrite _
    · rename_i folder _
      have hmake : (Session.host.makeFolders folder : ExceptT Failure (StateM Session) Bool) s =
          (.ok true, { s with tree := t }) := lift_change (congrArg s.change hfolder)
      simp only
      exact (bind_of_ok hmake _).trans (bind_of_ok hwrite _)
  · have hreceives : t.Receives path text (t.withFile p text) := FileTree.receives_withFile hp
    obtain ⟨hread, q, hq, hothers⟩ := hreceives
    exact ⟨hread, q, hq, FileTree.files_withFolderOf? hfolder ▸ hothers⟩

/-- The action prints nothing to standard output, however it ends. -/
def Silent (m : ExceptT Failure (StateM Session) α) : Prop := ∀ s, (m s).2.stdout = s.stdout

namespace Silent

variable {m : ExceptT Failure (StateM Session) α}

theorem pure (x : α) : Silent (Pure.pure x) := fun _ => rfl

theorem attempt (r : Attempt α) : Silent (Command.attempt r) := fun _ => rfl

theorem bind {k : α → ExceptT Failure (StateM Session) β} (hm : Silent m)
    (hk : ∀ x, Silent (k x)) : Silent (m >>= k) := by
  intro s
  have hrun : (m >>= k) s = ExceptT.bindCont k (m s).1 (m s).2 := rfl
  rw [hrun]
  cases (m s).1 with
  | ok x => exact (hk x _).trans (hm s)
  | error f => exact hm s

theorem tell {p : Progress} (hp : p ≠ .out) (lines : List String) :
    Silent (Command.tell Session.host p lines) := by
  intro s
  cases p with
  | out => exact absurd rfl hp
  | quiet => rfl
  | err => rfl

theorem loadManifest (path : String) : Silent (Command.loadManifest Session.host path) := by
  have hread : Silent (Session.host.read path) := fun _ => rfl
  refine hread.bind fun text => ?_
  cases text with
  | none => exact attempt _
  | some text =>
    cases hp : parse? path text with
    | none => simp only [hp]; exact attempt _
    | some manifest => simp only [hp]; exact pure _

theorem draft (path : String) (overrides : Preferences) (verbose : Bool) :
    Silent (Command.draft Session.host path none overrides verbose) := by
  have hp : Progress.of verbose true ≠ .out := by cases verbose <;> decide
  refine (tell hp _).bind fun _ => bind ?_ fun e => (tell hp _).bind fun _ => attempt _
  refine (tell hp _).bind fun _ => (loadManifest path).bind fun manifest => ?_
  refine (attempt _).bind fun _ => (tell hp _).bind fun _ => (attempt _).bind fun c => ?_
  exact (tell hp _).bind fun _ => pure _

end Silent

theorem deliver_none (l : Listing) (verbose : Bool) (s : Session) : ∃ s',
    deliver Session.host none verbose l s = (.ok (), s') ∧ s'.tree = s.tree ∧
      s'.stdout = s.stdout ++ l.render := by
  cases verbose <;> exact ⟨_, rfl, rfl, rfl⟩

theorem deliver_some {file : String} (h : s.tree.Writable file) (l : Listing) (verbose : Bool) :
    ∃ s', deliver Session.host (some file) verbose l s = (.ok (), s') ∧
      s.tree.Receives file l.render s'.tree := by
  obtain ⟨tree, hwrite, hreceives⟩ := writeOutput_of_writable h l.render
  cases verbose <;> exact ⟨_, bind_of_ok hwrite _, hreceives⟩

/-- The listing of a manifest that is read, or why there is none. -/
def listed (read : String → Option String) (path : String) (overrides : Preferences) :
    Attempt Listing := do
  let manifest ← parsed read path
  let (s, c) ← collected manifest overrides
  .ofFault (Listing.ofCatalog s c)

section Generate

variable {overrides : Preferences}

theorem generate_of_listed {l : Listing} (h : listed s.tree.read? path overrides = .ok l)
    (output : Option String) (verbose : Bool) : ∃ s₁,
      s.generate path output overrides verbose = deliver Session.host output verbose l s₁ ∧
      s₁.tree = s.tree ∧ (output = none → s₁.stdout = s.stdout) := by
  obtain ⟨hr, htree⟩ := Answers.draft path output overrides verbose s rfl
  refine ⟨_, ?_, htree, ?_⟩
  · unfold Session.generate
    rw [generate_eq]
    exact bind_of_ok (Prod.ext (hr.trans h) rfl) _
  · rintro rfl
    exact Silent.draft path overrides verbose s

theorem generate_of_not_listed {f : Failure}
    (h : listed s.tree.read? path overrides = .error f) (output : Option String) (verbose : Bool) :
    ∃ s', s.generate path output overrides verbose = (.error f, s') ∧ s'.tree = s.tree ∧
      (output = none → s'.stdout = s.stdout) := by
  obtain ⟨hr, htree⟩ := Answers.draft path output overrides verbose s rfl
  refine ⟨_, ?_, htree, ?_⟩
  · unfold Session.generate
    rw [generate_eq]
    exact bind_of_error (Prod.ext (hr.trans h) rfl) _
  · rintro rfl
    exact Silent.draft path overrides verbose s

end Generate

end Runs

end Command

namespace Session

/-- The command `generate` puts out its listing and nothing else, or nothing at all. If the manifest
is read and its listing made, the listing is printed, and no file changes, or it is the text of the
file it was asked for. If not, the command fails with the reason, no file or folder changes, and
nothing is printed where the listing would be. The program ends as its command does. -/
theorem generate_all_or_nothing (s : Session) (path : String) (overrides : Preferences)
    (verbose : Bool) :
    (∀ l, Command.listed s.tree.read? path overrides = .ok l →
      (∃ s', s.generate path none overrides verbose = (.ok (), s') ∧ s'.tree = s.tree ∧
        s'.stdout = s.stdout ++ l.render) ∧
      ∀ file, s.tree.Writable file → ∃ s',
        s.generate path (some file) overrides verbose = (.ok (), s') ∧
        s.tree.Receives file l.render s'.tree) ∧
    (∀ f, Command.listed s.tree.read? path overrides = .error f → ∀ output, ∃ s',
      s.generate path output overrides verbose = (.error f, s') ∧ s'.tree = s.tree ∧
      (output = none → s'.stdout = s.stdout)) ∧
    ∀ words output,
      Command.Request.ofArguments words = .ok (.generate path output overrides verbose) →
      s.run words = match s.generate path output overrides verbose with
        | (.ok (), s') => (.done, s')
        | (.error f, s') => (.ofCause f.cause, { s' with stderr := s'.stderr ++ f.report }) := by
  refine ⟨fun l hl => ⟨?_, fun file hfile => ?_⟩, fun f hf output => ?_,
    fun words output hwords => ?_⟩
  · obtain ⟨s₁, hrun, htree, hout⟩ := Command.generate_of_listed hl none verbose
    obtain ⟨s', hdeliver, htree', hout'⟩ := Command.deliver_none l verbose s₁
    exact ⟨s', hrun.trans hdeliver, htree'.trans htree, by rw [hout', hout rfl]⟩
  · obtain ⟨s₁, hrun, htree, _⟩ := Command.generate_of_listed hl (some file) verbose
    rw [← htree] at hfile ⊢
    obtain ⟨s', hdeliver, hreceives⟩ := Command.deliver_some hfile l verbose
    exact ⟨s', hrun.trans hdeliver, hreceives⟩
  · exact Command.generate_of_not_listed hf output verbose
  · unfold run Program.run
    rw [hwords]
    cases hrun : s.generate path output overrides verbose with
    | mk r s' =>
      have hrest {β : Type} (k : Attempt Unit → StateM Session β) :
          ((Command.generate host path output overrides verbose).run >>= k) s = k r s' :=
        congrArg (fun r : Attempt Unit × Session => k r.1 r.2) hrun
      cases r with
      | ok => exact hrest _
      | error f => exact hrest _

/-- A tree with two manifests. The second one asks for a line that is too narrow. -/
def delivering : Session :=
  let manifest : Manifest := ⟨.none, ["0000000000000000"], [⟨1, "a", .pointer ⟨0, 0, 8⟩⟩]⟩
  let narrow := { manifest with options := { Preferences.none with wrapWidth := some 4 } }
  .ofTree ⟨[(["m.json"], manifest.toJson.render), (["n.json"], narrow.toJson.render)], []⟩

theorem generate_all_or_nothing_sample :
    (∃ l : Listing, l.lineCount = 26 ∧
      (∃ s', delivering.generate "m.json" none .none true = (.ok (), s') ∧ s'.stdout = l.render) ∧
      ∃ s', delivering.generate "m.json" (some "out/gen.rs") .none true = (.ok (), s') ∧
        s'.tree.read? "out/gen.rs" = some l.render) ∧
    (∃ s', delivering.generate "n.json" (some "out/gen.rs") .none true =
      (.error (.ofFault (.narrowWrap 4 5)), s') ∧ s'.tree = delivering.tree) ∧
    (delivering.run ["generate", "-vf", "n.json", "-o", "out/gen.rs"]).1 = .failed := by
  obtain ⟨hlisted, _, _⟩ := generate_all_or_nothing delivering "m.json" .none true
  obtain ⟨_, hfailed, hrun⟩ := generate_all_or_nothing delivering "n.json" .none true
  have hcount : (Command.listed delivering.tree.read? "m.json" .none).map (·.lineCount) = .ok 26 :=
    by decide +kernel
  have hnarrow : Command.listed delivering.tree.read? "n.json" .none =
      .error (.ofFault (.narrowWrap 4 5)) := by decide +kernel
  have hwritable : delivering.tree.Writable "out/gen.rs" :=
    ⟨{ delivering.tree with folders := [["out"]] }, ["out", "gen.rs"], by decide +kernel,
      by decide +kernel, by decide +kernel⟩
  have hwords : Command.Request.ofArguments ["generate", "-vf", "n.json", "-o", "out/gen.rs"] =
      .ok (.generate "n.json" (some "out/gen.rs") .none true) := by decide +kernel
  obtain ⟨s', hfile, htree, _⟩ := hfailed _ hnarrow (some "out/gen.rs")
  refine ⟨?_, ⟨s', hfile, htree⟩, ?_⟩
  · cases hl : Command.listed delivering.tree.read? "m.json" .none with
    | error f =>
      rw [hl] at hcount
      cases hcount
    | ok l =>
      rw [hl] at hcount
      obtain ⟨⟨s', hprinted, _, hout⟩, hwritten⟩ := hlisted l hl
      obtain ⟨s'', hrun, hreceives⟩ := hwritten _ hwritable
      exact ⟨l, Except.ok.inj hcount, ⟨s', hprinted, hout.trans String.empty_append⟩, s'', hrun,
        hreceives.read⟩
  · rw [hrun _ _ hwords, hfile]
    rfl

end Session

end FrozenDefaults
