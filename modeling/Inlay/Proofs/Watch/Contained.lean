import Inlay.Proofs.Watch.Lasting

/-!
# Events below a watched folder

The way from a folder to a path is a text that starts with a step above exactly if the path is
neither the folder nor below it (`wayBelow?_eq_none_iff`), and from the folder it leads back to the
path. So a watched folder answers for what is in it, however a path is spelled
(`compiled_iff_contained`).
-/

namespace Inlay.Watch

open Inlay.Action

/-! ### The way to a path -/

theorem exists_way_of_prefix {v : Volume} {folder path : Path}
    (h : Path.components (v.absolute folder) <+: Path.components (v.absolute path)) :
    ∃ way, (∀ n ∈ way, Path.IsName n) ∧
      Path.components (v.absolute path) = Path.components (v.absolute folder) ++ way := by
  obtain ⟨way, hway⟩ := h
  exact ⟨way, fun n hn => Path.isName_of_mem_absolute rfl
    (hway ▸ List.mem_append_right _ hn), hway.symm⟩

theorem wayBelow?_of_same {v : Volume} {folder path : Path}
    (h : Path.components (v.absolute path) = Path.components (v.absolute folder)) :
    wayBelow? v folder path = some Path.here := by
  rw [wayBelow?, Path.relative_self h]
  rfl

/-- A way that stays in the folder leads to the path, whatever the two look like. -/
theorem exists_wayBelow? {v : Volume} {folder path : Path}
    (h : Path.components (v.absolute folder) <+: Path.components (v.absolute path)) :
    ∃ way, wayBelow? v folder path = some way ∧
      Path.components (v.absolute (Path.join folder way)) = Path.components (v.absolute path) := by
  obtain ⟨way, hnames, hway⟩ := exists_way_of_prefix h
  cases way with
  | nil =>
    rw [List.append_nil] at hway
    refine ⟨Path.here, wayBelow?_of_same hway, ?_⟩
    rw [hway]
    exact Path.components_absolute_join_here rfl folder
  | cons n names =>
    refine ⟨_, wayBelow?_of_components (List.cons_ne_nil n names) hnames hway, ?_⟩
    rw [Path.join_way folder (List.cons_ne_nil n names) hnames, hway]
    exact Path.components_absolute_descend rfl folder hnames

theorem wayBelow?_eq_none_iff {v : Volume} {folder path : Path} :
    wayBelow? v folder path = none ↔
      ¬ Path.components (v.absolute folder) <+: Path.components (v.absolute path) := by
  constructor
  · intro hnone hpre
    obtain ⟨way, hway, _⟩ := exists_wayBelow? hpre
    rw [hnone] at hway
    simp at hway
  · intro hout
    have hleaves := Path.relative_leaves hout
    rw [← List.isPrefixOf_iff_prefix] at hleaves
    rw [wayBelow?, if_pos hleaves]

/-! ### What is asked for -/

/-- There is a job exactly if one is wanted, and it is for the file at the path. -/
structure Asks (v : Volume) (path : Path) (wanted : Prop) (asked : Option Job) : Prop where
  isSome_iff : asked.isSome = true ↔ wanted
  same : ∀ job ∈ asked,
    Path.components (v.absolute job.source) = Path.components (v.absolute path)

theorem asks_none {v : Volume} {path : Path} {wanted : Prop} (h : ¬ wanted) :
    Asks v path wanted none where
  isSome_iff := by simpa using h
  same := by simp

section
variable {handler : Handler} {source target : Text}
  (hs : handler.profile.sourceExtension = some source)
  (ht : handler.profile.targetExtension = some target)
include hs ht

theorem exists_asked_in_folder (path : Path) (s : Workspace) :
    ∃ asked, (jobInFolder? handler path).runOn s = (.ok asked, s) ∧
      Asks s.volume path (source <:+ path ∧
        Path.components (s.volume.absolute handler.input) <+:
          Path.components (s.volume.absolute path)) asked := by
  unfold jobInFolder?
  rw [runOn_bind_of_ok (runOn_need_some hs s)]
  split
  · next hext =>
    rw [Path.hasExtension, Bool.not_eq_true', ← Bool.not_eq_true,
      List.isSuffixOf_iff_suffix] at hext
    exact ⟨none, rfl, asks_none fun h => hext h.1⟩
  next hext =>
    rw [Path.hasExtension, Bool.not_eq_true', Bool.not_eq_false,
      List.isSuffixOf_iff_suffix] at hext
    rw [runOn_bind_of_ok (runOn_get s)]
    by_cases hin : Path.components (s.volume.absolute handler.input) <+:
        Path.components (s.volume.absolute path)
    · obtain ⟨way, hway, hsame⟩ := exists_wayBelow? hin
      obtain ⟨rest, hrest⟩ :=
        Path.exists_join_eq_append handler.input (isAbsolute_of_wayBelow? hway)
      have hmirror := Path.mirror_of_append handler.input rest handler.output target source
      rw [← hrest] at hmirror
      simp only [hway, runOn_bind_of_ok (runOn_need_some ht s), hmirror]
      exact ⟨_, rfl, ⟨iff_of_true rfl ⟨hext, hin⟩, by simpa using hsame⟩⟩
    · simp only [wayBelow?_eq_none_iff.2 hin]
      exact ⟨none, rfl, asks_none fun h => hin h.2⟩

theorem exists_asked (hss : '/' ∉ source) (hf : handler.isFolder = true) (event : Event)
    (s : Workspace) :
    ∃ asked, (jobOf? handler event).runOn s = (.ok asked, s) ∧
      Asks s.volume event.path (event.bringsFile = true ∧ source <:+ event.path ∧
        Path.components (s.volume.absolute handler.input) <+:
          Path.components (s.volume.absolute event.path)) asked := by
  rw [runOn_jobOf?_of_folder hs ht hf, Path.hasExtension_base hss]
  split
  · next hnews =>
    obtain ⟨asked, hrun, hasks⟩ := exists_asked_in_folder hs ht event.path s
    have hfile : event.bringsFile = true := (Bool.and_eq_true_iff.1 hnews).1
    exact ⟨asked, hrun, ⟨hasks.isSome_iff.trans (and_iff_right hfile).symm, hasks.same⟩⟩
  · next hnews =>
    -- What is left out brings no file, or has a name without the source extension.
    refine ⟨none, rfl, asks_none fun ⟨hfile, hext, _⟩ => hnews ?_⟩
    rw [← List.isSuffixOf_iff_suffix, ← Path.hasExtension] at hext
    simp [hfile, hext]

end

/-! ### Notices -/

theorem EventKind.bringsContent_iff {kind : EventKind} :
    kind.bringsContent = true ↔ kind = .created ∨ kind = .modified ∨ kind = .moved := by
  cases kind <;> decide

theorem Event.bringsFile_iff {e : Event} :
    e.bringsFile = true ↔ e.isFolder = false ∧
      (e.kind = .created ∨ e.kind = .modified ∨ e.kind = .moved) ∧ e.path ≠ [] := by
  rw [← EventKind.bringsContent_iff]
  simp [Event.bringsFile, and_assoc]

theorem Notice.path_event (decode : Bytes → Path) (n : Notice) :
    (n.event decode).path =
      (if n.kind = .moved then n.destination else n.source).path decode :=
  (apply_ite (Spelling.path decode) _ _ _).symm

/-- A watched folder compiles what it is told of exactly if that is a source with new content at
the folder or below it, and what it compiles is there. What comes of it is recorded, unless the
compiler leaves the interpreter. Otherwise nothing happens. -/
theorem compiled_iff_contained [Host] {mode : CheckMode} {given : Value} {table : Table}
    {findings : List Finding} (hcheck : checkSettings mode given = .ok (table, findings))
    {handler : Handler} (hprofile : handler.profile = Profile.ofTable table)
    (hf : handler.isFolder = true) {source : Text}
    (hs : handler.profile.sourceExtension = some source) (hss : '/' ∉ source)
    (decode : Bytes → Path) (notice : Notice) {σ : Type} (tell : Listener σ) (w : Watching σ) :
    let path := (if notice.kind = .moved then notice.destination else notice.source).path decode
    let names := Path.components ∘ w.workspace.volume.absolute
    ∃ asked : Option Job,
      (asked.isSome = true ↔ notice.isFolder = false ∧
        (notice.kind = .created ∨ notice.kind = .modified ∨ notice.kind = .moved) ∧
        path ≠ [] ∧ source <:+ path ∧ names handler.input <+: names path) ∧
      (asked = none → onEvent handler tell (notice.event decode) w = (.ok (), w)) ∧
      ∀ job ∈ asked, names job.source = names path ∧
        ((∃ o s, (recompile handler job).runOn w.workspace = (.ok o, s) ∧ o.source = job.source ∧
          onEvent handler tell (notice.event decode) w =
            ((tell o (s, w.listener)).1,
              ⟨(tell o (s, w.listener)).2.1, w.outcomes ++ [o],
                (tell o (s, w.listener)).2.2⟩)) ∨
        ¬ handler.compiler.Stays ∧ ∃ f s, f.leaves = true ∧
          (recompile handler job).runOn w.workspace = (.error f, s) ∧
          onEvent handler tell (notice.event decode) w =
            (.error f, { w with workspace := s })) := by
  intro path names
  obtain ⟨_, target, _, ht, _⟩ := (checked_of_checkSettings hcheck).extensions
  rw [← hprofile] at ht
  obtain ⟨asked, hasked, hasks⟩ := exists_asked hs ht hss hf (notice.event decode) w.workspace
  rw [Event.bringsFile_iff, notice.path_event decode] at hasks
  refine ⟨asked, hasks.isSome_iff.trans (by simp only [and_assoc]; rfl), ?_, ?_⟩
  · rintro rfl
    rw [onEvent, runOn_handle_of_none hasked]
  · rintro job hjob
    obtain rfl := Option.mem_def.1 hjob
    refine ⟨hasks.same job rfl, ?_⟩
    rcases onEvent_of_asked hasked tell with ⟨o, s, hrun, hsource, _, hevent⟩ | hgoes
    · exact Or.inl ⟨o, s, hrun, hsource, hevent⟩
    · exact Or.inr hgoes

end Inlay.Watch

namespace Inlay.Watch

open Inlay.Standard Inlay.Action

/-- A file has come to the watched folder, by a path in bytes that goes out of it and back. -/
def broughtBack : Notice :=
  ⟨.moved, false, .text "elsewhere/a.tea".toList, .bytes (Utf8.encode "r/../r//a.tea".toList)⟩

theorem compiled_iff_contained_of_broughtBack :
    ∃ (job : Job) (o : Outcome) (s : Workspace),
      Path.components (oneSource.volume.absolute job.source) = [['r'], "a.tea".toList] ∧
      o.source = job.source ∧
      onEvent (inPlace Setting.defaults) remembering
        (broughtBack.event fun b => (Utf8.decode b).toOption.getD []) ⟨oneSource, [], []⟩ =
          (.ok (), ⟨s, [o], [o]⟩) := by
  have hcheck : checkSettings .lenient (.table []) = .ok (Setting.defaults, []) := rfl
  obtain ⟨asked, hiff, _, hall⟩ := compiled_iff_contained hcheck
    (show (inPlace Setting.defaults).profile = _ from rfl) rfl rfl (by decide)
    (fun b => (Utf8.decode b).toOption.getD []) broughtBack remembering ⟨oneSource, [], []⟩
  have hpath : broughtBack.destination.path (fun b => (Utf8.decode b).toOption.getD []) =
      "r/../r//a.tea".toList := by cbv
  rw [show (if broughtBack.kind = .moved then broughtBack.destination else broughtBack.source) =
    broughtBack.destination from rfl, hpath] at hiff hall
  obtain ⟨job, rfl⟩ := Option.isSome_iff_exists.1
    (hiff.2 ⟨rfl, Or.inr (Or.inr rfl), by decide, by decide, by decide⟩)
  obtain ⟨hsame, ⟨o, s, _, hsource, hrun⟩ | ⟨hgoes, _⟩⟩ := hall job rfl
  · exact ⟨job, o, s, hsame, hsource, hrun⟩
  · exact absurd Compiler.stays_passthrough hgoes

end Inlay.Watch
