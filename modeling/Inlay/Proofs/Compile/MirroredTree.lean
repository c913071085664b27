import Inlay.Proofs.Compile.Batch
import Inlay.Proofs.Compile.Plan
import Inlay.Proofs.Fragment.Rejection
import Mathlib

/-!
# Mirrored trees

A folder compiled into an empty folder elsewhere. The sources are done one after the other, and
what stands in the output folder after some of them is said by `Progress`: the files made so far
are those of the sources that compile, and every source has its outcome.
-/

namespace Inlay

variable [Host]

/-- An input folder and an empty output folder outside of it. -/
structure Volume.Fresh (v : Volume) (place goal : Place) (target : Text) : Prop where
  tree : v.Tree
  input : v.get? place = some .folder
  output : v.get? goal = some .folder
  empty : ∀ rest, rest ≠ [] → v.get? (goal ++ rest) = none
  apart : ¬ place <+: goal
  plain : ∀ way entry, v.get? (place ++ way) = some entry → ∀ n ∈ way, '\\' ∉ n
  noFolder : ∀ folders kept,
    v.get? (place ++ (folders ++ [kept ++ target])) ≠ some .folder

namespace Volume.Fresh

variable {v : Volume} {place goal : Place} {source target : Text} (hf : v.Fresh place goal target)
  {x : Stem} {content : Bytes}
  (hx : v.get? (place ++ x.way source) = some (.file content))
/-- For a volume that is given by its entries. -/
theorem of_entries (h : v.Tree) (hi : v.get? place = some .folder) (ho : v.get? goal = some .folder)
    (ha : ¬ place <+: goal) (he : ∀ e ∈ v.entries, goal <+: e.1 → e.1 = goal)
    (hp : ∀ e ∈ v.entries, ∀ n ∈ e.1, '\\' ∉ n)
    (hn : ∀ e ∈ v.entries, place <+: e.1 → e.2 = .folder → ∀ n ∈ e.1.getLast?, ¬ target <:+ n) :
    v.Fresh place goal target where
  tree := h
  input := hi
  output := ho
  empty rest hr := by
    by_contra hne
    obtain ⟨entry, hentry⟩ := Option.ne_none_iff_exists'.1 hne
    have hself := he _ (mem_entries_of_get? (by simp [hr]) hentry) (List.prefix_append goal rest)
    simp [hr] at hself
  apart := ha
  plain way entry hentry := forall_names_of_entries hp hentry
  noFolder folders kept hentry :=
    hn _ (mem_entries_of_get? (by simp) hentry) (List.prefix_append _ _) rfl (kept ++ target)
      (by simp) (List.suffix_append kept target)

include hf

theorem not_below (way rest : List Text) : place ++ way ≠ goal ++ rest := by
  intro heq
  rcases List.append_eq_append_iff.1 heq with ⟨more, hg, _⟩ | ⟨more, hg, _⟩
  · exact hf.apart ⟨more, hg.symm⟩
  · by_cases hm : more = []
    · exact hf.apart ⟨[], by rw [hg, hm]; simp⟩
    · have hnone := hf.empty more hm
      rw [← hg, hf.input] at hnone
      simp at hnone

include hx

/-- No output stands on the way to another, since no folder has the target extension. -/
theorem not_prefix (y : Stem) : ¬ y.way target <+: x.folders := by
  rintro ⟨rest, hr⟩
  have hbelow : v.get? (place ++ y.way target ++ (rest ++ [x.kept ++ source])) =
      some (.file content) := by
    rw [← hx, show x.way source = y.way target ++ rest ++ [x.kept ++ source] by rw [hr]; rfl]
    simp
  exact hf.noFolder y.folders y.kept (hf.tree.folder_of_below hbelow (by simp))

theorem names : ∀ n ∈ x.way source, Path.IsName n ∧ '\\' ∉ n := fun n hn =>
  ⟨hf.tree.isName_below hx n hn, hf.plain _ _ hx n hn⟩

end Volume.Fresh

namespace Compile

open Inlay.Action

section
variable (compiler : Compiler) (profile : Profile) (v : Volume) (input output : Path)
  (place goal : Place) (source target : Text)

/-- A source that compiles to some bytes, with a name for its output that a file can have. -/
def Mirrors (x : Stem) (bytes : Bytes) : Prop :=
  Path.IsName (x.kept ++ target) ∧
    ∃ content, v.get? (place ++ x.way source) = some (.file content) ∧
      Compiles compiler profile .utf8 (Path.descend input (x.way source)) content bytes

/-- A source that compiles to a text that cannot be written, with such a name. -/
def Unwritable (x : Stem) : Prop :=
  Path.IsName (x.kept ++ target) ∧
    ∃ content text out fault, v.get? (place ++ x.way source) = some (.file content) ∧
      Codec.utf8.decode content = .ok text ∧
      transform compiler profile.tags (Path.descend input (x.way source)) text = .ok out ∧
      Codec.utf8.encode out = .error fault

/-- What a source leaves in its output: what it compiles to, or nothing if that is not written. -/
def Leaves (x : Stem) (bytes : Bytes) : Prop :=
  Mirrors compiler profile v input place source target x bytes ∨
    Unwritable compiler profile v input place source target x ∧ bytes = []

/-- What becomes of a source. -/
def Fate (x : Stem) (o : Outcome) : Prop :=
  ((∃ bytes, Mirrors compiler profile v input place source target x bytes) ∧
    o = .compiled (Path.descend input (x.way source))
      (Path.under output (Text.join '/' (x.way target)))) ∨
  ((∀ bytes, ¬ Mirrors compiler profile v input place source target x bytes) ∧
    ∃ message, o = .failed (Path.descend input (x.way source))
      (Path.under output (Text.join '/' (x.way target))) message)

/-- After some of the sources. -/
structure Progress (done : List Stem) (outcomes : List Outcome) (w : Volume)
    (made : List (List Text × Bytes)) : Prop where
  added : v.Added w goal (done.map (·.way target)) made
  made_iff : ∀ m, m ∈ made ↔ ∃ x ∈ done, m.1 = x.way target ∧
    Leaves compiler profile v input place source target x m.2
  fates : List.Forall₂ (Fate compiler profile v input output place source target) done outcomes

end

variable {compiler : Compiler} {profile : Profile} {v w : Volume} {input output : Path}
  {place goal : Place} {source target : Text}

omit [Host] in
theorem Compiles.unique {codec : Codec} {path : Path} {content bytes bytes' : Bytes}
    (h : Compiles compiler profile codec path content bytes)
    (h' : Compiles compiler profile codec path content bytes') : bytes = bytes' := by
  obtain ⟨text, out, hd, ht, he⟩ := h
  obtain ⟨text', out', hd', ht', he'⟩ := h'
  obtain rfl : text = text' := Except.ok.inj (hd.symm.trans hd')
  obtain rfl : out = out' := Except.ok.inj (ht.symm.trans ht')
  exact Except.ok.inj (he.symm.trans he')

theorem Mirrors.compiles {x : Stem} {content bytes : Bytes}
    (h : Mirrors compiler profile v input place source target x bytes)
    (hx : v.get? (place ++ x.way source) = some (.file content)) :
    Compiles compiler profile .utf8 (Path.descend input (x.way source)) content bytes := by
  obtain ⟨_, content', hx', hc⟩ := h
  obtain rfl : content = content' := by
    rw [hx] at hx'
    simpa using hx'
  exact hc

theorem Mirrors.not_unwritable {x : Stem} {bytes : Bytes}
    (h : Mirrors compiler profile v input place source target x bytes) :
    ¬ Unwritable compiler profile v input place source target x := by
  rintro ⟨_, content, text, out, fault, hx, hd, ht, he⟩
  obtain ⟨text', out', hd', ht', he'⟩ := h.compiles hx
  obtain rfl : text = text' := Except.ok.inj (hd.symm.trans hd')
  obtain rfl : out = out' := Except.ok.inj (ht.symm.trans ht')
  simp [he] at he'

theorem Leaves.unique {x : Stem} {bytes bytes' : Bytes}
    (h : Leaves compiler profile v input place source target x bytes)
    (h' : Leaves compiler profile v input place source target x bytes') : bytes = bytes' := by
  rcases h with h | ⟨h, rfl⟩
  · rcases h' with h' | ⟨h', _⟩
    · obtain ⟨_, content, hf, hc⟩ := h
      exact hc.unique (h'.compiles hf)
    · exact absurd h' h.not_unwritable
  · rcases h' with h' | ⟨_, rfl⟩
    · exact absurd h h'.not_unwritable
    · rfl

/-- What a source that leaves something is decoded and transformed to. -/
theorem Leaves.exists_transformed {x : Stem} {content bytes : Bytes}
    (h : Leaves compiler profile v input place source target x bytes)
    (hx : v.get? (place ++ x.way source) = some (.file content)) :
    Path.IsName (x.kept ++ target) ∧ ∃ text out, Codec.utf8.decode content = .ok text ∧
      transform compiler profile.tags (Path.descend input (x.way source)) text = .ok out := by
  rcases h with h | ⟨⟨hname, content', text, out, _, hx', hd, ht, _⟩, _⟩
  · obtain ⟨text, out, hd, ht, _⟩ := h.compiles hx
    exact ⟨h.1, text, out, hd, ht⟩
  · obtain rfl : content = content' := by simpa using hx.symm.trans hx'
    exact ⟨hname, text, out, hd, ht⟩

/-! ### Where it goes -/

theorem runOn_outputRoot {s : Workspace} (h : s.volume.Tree) {path : Path} {goal : Place}
    (ho : s.volume.Leads output goal) (hg : s.volume.get? goal = some .folder) :
    (outputRoot path (some output)).runOn s = (.ok output, s) := by
  have hne : (some output).filter (fun o => !o.isEmpty) = some output := by
    simp [Option.filter, ho.1]
  unfold outputRoot
  rw [runOn_bind_of_ok (runOn_get s), hne]
  simp [h.hasEntry_of_leads ho hg, h.isFolder_of_leads ho hg]

/-! ### One source -/

namespace Progress

variable {done : List Stem} {outcomes : List Outcome} {made : List (List Text × Bytes)}

theorem start (h : v.Tree) :
    Progress compiler profile v input output place goal source target [] [] v [] :=
  ⟨h.added goal, by simp, .nil⟩

theorem failed {x : Stem}
    (h : Progress compiler profile v input output place goal source target done outcomes w made)
    {u : Volume} (hu : v.Added u goal (done.map (·.way target) ++ [x.way target]) made)
    (hx : ∀ bytes, ¬ Leaves compiler profile v input place source target x bytes)
    (message : String) :
    Progress compiler profile v input output place goal source target (done ++ [x])
      (outcomes ++ [.failed (Path.descend input (x.way source))
        (Path.under output (Text.join '/' (x.way target))) message]) u made := by
  refine ⟨by rwa [List.map_append], fun m => ?_, List.rel_append h.fates
    (.cons (Or.inr ⟨fun bytes hm => hx bytes (Or.inl hm), message, rfl⟩) .nil)⟩
  rw [h.made_iff]
  constructor
  · rintro ⟨y, hy, hm⟩
    exact ⟨y, List.mem_append_left _ hy, hm⟩
  · rintro ⟨y, hy, hm⟩
    rcases List.mem_append.1 hy with hy | hy
    · exact ⟨y, hy, hm⟩
    · rw [List.mem_singleton.1 hy] at hm
      exact absurd hm.2 (hx m.2)

theorem delivered {x : Stem} {bytes : Bytes} {o : Outcome}
    (h : Progress compiler profile v input output place goal source target done outcomes w made)
    {u : Volume} (hu : v.Added u goal (done.map (·.way target) ++ [x.way target])
      (made ++ [(x.way target, bytes)]))
    (hx : Leaves compiler profile v input place source target x bytes)
    (ho : Fate compiler profile v input output place source target x o) :
    Progress compiler profile v input output place goal source target (done ++ [x])
      (outcomes ++ [o]) u (made ++ [(x.way target, bytes)]) := by
  refine ⟨by rwa [List.map_append], fun m => ?_, List.rel_append h.fates (.cons ho .nil)⟩
  rw [List.mem_append, h.made_iff, List.mem_singleton]
  constructor
  · rintro (⟨y, hy, hm⟩ | rfl)
    · exact ⟨y, List.mem_append_left _ hy, hm⟩
    · exact ⟨x, by simp, rfl, hx⟩
  · rintro ⟨y, hy, hm⟩
    rcases List.mem_append.1 hy with hy | hy
    · exact Or.inl ⟨y, hy, hm⟩
    · rw [List.mem_singleton.1 hy] at hm
      exact Or.inr (Prod.ext hm.1 (hm.2.unique hx))

/-- Whatever the failure, the source has its outcome and no file is made. -/
theorem exists_of_error {s t : Workspace} {f : Failure} {x : Stem}
    (h : Progress compiler profile v input output place goal source target done outcomes w made)
    (hrun : (compileFile compiler profile ⟨Path.descend input (x.way source),
      Path.under output (Text.join '/' (x.way target))⟩).runOn s = (.error f, t))
    (hof : f.isOfFile = true) (htf : t.faults = [])
    (ht : v.Added t.volume goal (done.map (·.way target) ++ [x.way target]) made)
    (hx : ∀ bytes, ¬ Leaves compiler profile v input place source target x bytes) :
    ∃ o u made', (toOutcome compiler profile ⟨Path.descend input (x.way source),
        Path.under output (Text.join '/' (x.way target))⟩).runOn s = (.ok o, u) ∧ u.faults = [] ∧
      Progress compiler profile v input output place goal source target (done ++ [x])
        (outcomes ++ [o]) u.volume made' := by
  obtain ⟨record, hout⟩ := exists_runOn_toOutcome_of_error hrun hof
  exact ⟨_, _, made, hout, by rw [Workspace.logged_faults, htf],
    by rw [Workspace.logged_volume]; exact h.failed ht hx _⟩

/-- A text that is written gives its file, and one that is not leaves an empty one. -/
theorem exists_of_stored {s t : Workspace} {x : Stem} {content : Bytes} {text out : Text}
    (h : Progress compiler profile v input output place goal source target done outcomes w made)
    (hx : v.get? (place ++ x.way source) = some (.file content))
    (hname : Path.IsName (x.kept ++ target)) (hd : Codec.utf8.decode content = .ok text)
    (ht : transform compiler profile.tags (Path.descend input (x.way source)) text = .ok out)
    (hrun : (compileFile compiler profile ⟨Path.descend input (x.way source),
      Path.under output (Text.join '/' (x.way target))⟩).runOn s = ((stored .utf8 out).1, t))
    (htf : t.faults = [])
    (hadd : v.Added t.volume goal (done.map (·.way target) ++ [x.way target])
      (made ++ [(x.way target, (stored .utf8 out).2)])) :
    ∃ o u made', (toOutcome compiler profile ⟨Path.descend input (x.way source),
        Path.under output (Text.join '/' (x.way target))⟩).runOn s = (.ok o, u) ∧ u.faults = [] ∧
      Progress compiler profile v input output place goal source target (done ++ [x])
        (outcomes ++ [o]) u.volume made' := by
  cases hb : Codec.utf8.encode out with
  | ok bytes =>
    have hstored : stored .utf8 out = (.ok (), bytes) := by rw [stored, hb]
    rw [hstored] at hrun hadd
    have hm : Mirrors compiler profile v input place source target x bytes :=
      ⟨hname, content, hx, text, out, hd, ht, hb⟩
    exact ⟨_, t, _, runOn_toOutcome_of_ok hrun, htf,
      h.delivered hadd (Or.inl hm) (Or.inl ⟨⟨bytes, hm⟩, rfl⟩)⟩
  | error fault =>
    have hstored : stored .utf8 out = (.error (.codec fault), []) := by rw [stored, hb]
    rw [hstored] at hrun hadd
    have hm : Unwritable compiler profile v input place source target x :=
      ⟨hname, content, text, out, fault, hx, hd, ht, hb⟩
    obtain ⟨record, hout⟩ := exists_runOn_toOutcome_of_error hrun rfl
    refine ⟨_, _, made ++ [(x.way target, [])], hout, by rw [Workspace.logged_faults, htf], ?_⟩
    rw [Workspace.logged_volume]
    exact h.delivered hadd (Or.inr ⟨hm, rfl⟩)
      (Or.inr ⟨fun bytes hb => hb.not_unwritable hm, _, rfl⟩)

theorem exists_of_mem_made
    (h : Progress compiler profile v input output place goal source target done outcomes w made)
    {m : List Text × Bytes} (hm : m ∈ made) : ∃ y ∈ done, m.1 = y.way target := by
  obtain ⟨y, hy, he, _⟩ := (h.made_iff m).1 hm
  exact ⟨y, hy, he⟩

section
variable (hf : v.Fresh place goal target)
  (h : Progress compiler profile v input output place goal source target done outcomes w made)
  {x : Stem}
include hf h

theorem «open» {content : Bytes} (hx : v.get? (place ++ x.way source) = some (.file content))
    (lead : List Text) (hl : lead <+: x.folders) : ¬ w.FileAt (goal ++ lead) := by
  refine h.added.open (fun lead _ hfile => ?_) (fun m hm => ?_) hl
  · obtain ⟨bytes, hb⟩ := hfile
    by_cases hz : lead = []
    · rw [hz, List.append_nil, hf.output] at hb
      simp at hb
    · rw [hf.empty lead hz] at hb
      simp at hb
  · obtain ⟨y, _, hy⟩ := h.exists_of_mem_made hm
    rw [hy]
    exact hf.not_prefix hx y

theorem free (hdone : ∀ y ∈ done, ∃ c, v.get? (place ++ y.way source) = some (.file c))
    (hnew : x ∉ done) : w.get? (goal ++ x.way target) = none := by
  refine h.added.free (hf.empty _ (x.way_ne_nil target)) (fun way hway => ?_) fun m hm hw => ?_
  · obtain ⟨y, hy, rfl⟩ := List.mem_map.1 hway
    obtain ⟨c, hy⟩ := hdone y hy
    rw [Stem.dropLast_way]
    exact hf.not_prefix hy x
  · obtain ⟨y, hy, hm⟩ := h.exists_of_mem_made hm
    exact hnew (Stem.way_injective target (hw.trans hm) ▸ hy)

end

end Progress

section
variable (hf : v.Fresh place goal target) (hsource : source ≠ [])
  (htarget : target ≠ [] ∧ '/' ∉ target ∧ '\\' ∉ target) (hc : compiler.GivesText)
  (hut : Path.IsUsable target) {encoding : Text} (he : profile.encoding = some encoding)
  (hn : Encoding.IsName encoding) (hu : Encoding.find? encoding = some (.text .utf8))
  (hi : v.Leads input place)
  (ho : v.Leads output goal) (hr : Path.IsRoot output)
include hf hsource htarget hc hut he hn hu hi ho hr

theorem Progress.exists_runOn_toOutcome {s : Workspace} (hs : s.faults = []) {done : List Stem}
    {outcomes : List Outcome} {made : List (List Text × Bytes)}
    (h : Progress compiler profile v input output place goal source target done outcomes s.volume
      made) {x : Stem} {content : Bytes}
    (hx : v.get? (place ++ x.way source) = some (.file content))
    (hdone : ∀ y ∈ done, ∃ c, v.get? (place ++ y.way source) = some (.file c)) (hnew : x ∉ done) :
    ∃ o t made', (toOutcome compiler profile (jobOf input output target source x)).runOn s =
        (.ok o, t) ∧ t.faults = [] ∧
      Progress compiler profile v input output place goal source target (done ++ [x])
        (outcomes ++ [o]) t.volume made' := by
  have hadd := h.added
  have hli := hadd.extends'.leads hf.tree hadd.tree hi
  have hlo := (hadd.extends'.leads hf.tree hadd.tree ho).tidy
  have hgoal := hadd.extends'.get? _ _ hf.output
  have hread := hadd.tree.read_descend hli (hadd.extends'.get? _ _ hx)
  have hfolders := isName_of_mem_folders (hf.names hx)
  obtain ⟨hpiece, _⟩ := isPiece_output (hf.names hx) htarget
  have hunder := under_way (hf.names hx) htarget hr
  have hopen := h.open hf hx
  have hfree := h.free hf hdone hnew
  rw [jobOf_eq (hf.names hx) htarget hsource input output]
  have hrun : (compileFile compiler profile ⟨Path.descend input (x.way source),
      Path.under output (Text.join '/' (x.way target))⟩).runOn s = _ :=
    runOn_compileFile hs he hn hu (hadd.tree.sound.isUsable_of_read hread) hread
  have hall := isUsable_way hf.tree hx hut
  cases hd : Codec.utf8.decode content with
  | error f =>
    simp only [hd] at hrun
    refine h.exists_of_error hrun rfl hs (hadd.skip _) fun bytes hm => ?_
    obtain ⟨_, text, _, hd', _⟩ := hm.exists_transformed hx
    simp [hd] at hd'
  | ok text =>
    simp only [hd] at hrun
    cases ht : transform compiler profile.tags (Path.descend input (x.way source)) text with
    | error f =>
      simp only [ht] at hrun
      obtain ⟨fault, rfl⟩ := exists_fragment_of_transform hc ht
      refine h.exists_of_error hrun rfl hs (hadd.skip _) fun bytes hm => ?_
      obtain ⟨_, text', _, hd', ht'⟩ := hm.exists_transformed hx
      obtain rfl : text = text' := Except.ok.inj (hd.symm.trans hd')
      simp [ht] at ht'
    | ok out =>
      simp only [ht] at hrun
      rw [hunder] at hrun ⊢
      by_cases hname : Path.IsName (x.kept ++ target)
      · obtain ⟨t, hfile, htf, hnext⟩ := exists_runOn_compileFile_added hf.tree hs hadd hi ho
          hf.output he hn hu hx hall hname hopen hfree hd ht
        rw [← hunder] at hfile ⊢
        exact h.exists_of_stored hx hname hd ht hfile htf hnext
      · obtain ⟨f, t, hdel, htf, hg⟩ := exists_runOn_deliver_error hadd.tree hs
          (Path.tidied_tidy output) hlo hgoal hfolders hall hopen hn hpiece
          (Path.descend input (x.way source)) out fun u hg =>
            hg.tree.write_notName (hg.extends'.leads hadd.tree hg.tree hlo) hpiece hname hg.folder
              []
        have hrefused := hrun.trans hdel
        rw [← hunder] at hrefused ⊢
        exact h.exists_of_error hrefused rfl htf (hadd.grow hg _) fun bytes hm =>
          hname (hm.exists_transformed hx).1

/-- All sources one after the other. -/
theorem exists_runOn_mirror {s : Workspace} (hs : s.faults = []) (hv : s.volume = v)
    {xs : List Stem} (hnodup : xs.Nodup)
    (hxs : ∀ x ∈ xs, ∃ c, v.get? (place ++ x.way source) = some (.file c)) :
    ∃ outcomes t, (runJobs compiler profile false (xs.map (jobOf input output target source))).runOn
        s = (.ok (outcomes.map .ok), t) ∧ t.faults = [] ∧
      ∃ made, Progress compiler profile v input output place goal source target xs outcomes t.volume
        made := by
  have hstep : ∀ done x rest outcomes s, xs = done ++ x :: rest → s.faults = [] →
      (∃ made, Progress compiler profile v input output place goal source target done outcomes
        s.volume made) →
      ∃ o t, (toOutcome compiler profile (jobOf input output target source x)).runOn s =
          (.ok o, t) ∧ t.faults = [] ∧ (false = false ∨ o.ok = true) ∧
        ∃ made, Progress compiler profile v input output place goal source target (done ++ [x])
          (outcomes ++ [o]) t.volume made := by
    rintro done x rest outcomes s heq hs ⟨made, hp⟩
    have hnew := not_mem_of_nodup hnodup heq
    rw [heq] at hxs
    obtain ⟨c, hx⟩ := hxs x (by simp)
    obtain ⟨o, t, made', hrun, htf, hnext⟩ := hp.exists_runOn_toOutcome hf hsource htarget hc hut he
      hn hu hi ho hr hs hx (fun y hy => hxs y (List.mem_append_left _ hy)) hnew
    exact ⟨o, t, hrun, htf, Or.inl rfl, made', hnext⟩
  exact exists_runOn_runJobs
    (fun done outcomes w => ∃ made,
      Progress compiler profile v input output place goal source target done outcomes w made)
    hstep hs ⟨[], by rw [hv]; exact Progress.start hf.tree⟩

/-- The whole command. -/
theorem exists_runOn_compilePath_mirror (hprofile : profile.Checked)
    (hfast : profile.failFast = some false) (hlog : profile.saveErrorLog = some false)
    (hs : profile.sourceExtension = some source) (ht : profile.targetExtension = some target)
    (hss : '/' ∉ source) {choice : Option Compiler} {s : Workspace}
    (hchoice : Uses profile s choice compiler) {request : Request} (hin : request.input = input)
    (hout : request.output = some output) (hfaults : s.faults = []) (hv : s.volume = v) :
    ∃ r t xs outcomes made, (compilePath request profile choice).runOn s = (.ok r, t) ∧
      xs.Nodup ∧ (∀ x, x ∈ xs ↔ ∃ c, v.get? (place ++ x.way source) = some (.file c)) ∧
      r.outcomes = Outcome.sort outcomes ∧
      Progress compiler profile v input output place goal source target xs outcomes t.volume
        made := by
  subst hin hv
  obtain ⟨ways, u, hnodup, hmem, hnames, hvolume, hu', hrun⟩ := exists_runOn_compilePath hchoice
    hf.tree hfaults hi hf.input hprofile fun t ht => by
      rw [hout]
      exact runOn_outputRoot (by rw [ht]; exact hf.tree) (by rw [ht]; exact ho)
        (by rw [ht]; exact hf.output)
  have hxs : ∀ x, x ∈ stems source ways ↔
      ∃ c, s.volume.get? (place ++ x.way source) = some (.file c) := fun x => by
    rw [mem_stems, hmem]
  have hplan := planJobs_descend hss request.input output target (fun way hw => (hnames way hw).1)
    fun way hw => Path.isPiece_of_isName (hnames way hw).2
  obtain ⟨outcomes, r, t, hfiles, hsort, _, made, hprogress⟩ := exists_runOn_compileFiles
    (Q := fun outcomes w => ∃ made, Progress compiler profile s.volume request.input output place
      goal source target (stems source ways) outcomes w made)
    hprofile hs ht hfast hplan (fun _ _ _ => Or.inl ⟨rfl, hlog⟩) fun record =>
      exists_runOn_mirror hf hsource htarget hc hut he hn
      hu hi ho hr (s := u.logged record) (by simp [hu']) (by simp [hvolume])
      (nodup_stems source hnodup) fun x hx => (hxs x).1 hx
  exact ⟨r, t, _, outcomes, made, hrun.trans hfiles, nodup_stems source hnodup, hxs, hsort,
    hprogress⟩

end

/-! ### The whole tree -/

theorem Progress.get?_output (hf : v.Fresh place goal target) {xs : List Stem}
    {outcomes : List Outcome} {made : List (List Text × Bytes)}
    (h : Progress compiler profile v input output place goal source target xs outcomes w made)
    (hxs : ∀ x, x ∈ xs ↔ ∃ c, v.get? (place ++ x.way source) = some (.file c)) (rest : List Text)
    (bytes : Bytes) :
    w.get? (goal ++ rest) = some (.file bytes) ↔ ∃ x, rest = x.way target ∧
      Leaves compiler profile v input place source target x bytes := by
  rw [h.added.file_iff]
  constructor
  · rintro (hv | ⟨m, hm, heq, rfl⟩)
    · by_cases hz : rest = []
      · rw [hz, List.append_nil, hf.output] at hv
        simp at hv
      · rw [hf.empty rest hz] at hv
        simp at hv
    · obtain ⟨x, _, hw, hx⟩ := (h.made_iff m).1 hm
      exact ⟨x, (List.append_cancel_left heq).trans hw, hx⟩
  · rintro ⟨x, rfl, hx⟩
    have hsource : ∃ c, v.get? (place ++ x.way source) = some (.file c) := by
      rcases hx with ⟨_, content, hc, _⟩ | ⟨⟨_, content, _, _, _, hc, _⟩, _⟩
      · exact ⟨content, hc⟩
      · exact ⟨content, hc⟩
    exact Or.inr ⟨(x.way target, bytes), (h.made_iff _).2 ⟨x, (hxs x).2 hsource, rfl, hx⟩,
      rfl, rfl⟩

theorem Progress.exists_fate {xs : List Stem} {outcomes : List Outcome}
    {made : List (List Text × Bytes)}
    (h : Progress compiler profile v input output place goal source target xs outcomes w made)
    {x : Stem} (hx : x ∈ xs) :
    ∃ o ∈ outcomes, Fate compiler profile v input output place source target x o := by
  have hfates := h.fates
  clear h
  induction hfates with
  | nil => simp at hx
  | cons hfate _ ih =>
    rcases List.mem_cons.1 hx with rfl | hx
    · exact ⟨_, List.mem_cons_self .., hfate⟩
    · obtain ⟨o, ho, hfate⟩ := ih hx
      exact ⟨o, List.mem_cons_of_mem _ ho, hfate⟩

theorem Progress.get?_elsewhere (hf : v.Fresh place goal target) {xs : List Stem}
    {outcomes : List Outcome} {made : List (List Text × Bytes)}
    (h : Progress compiler profile v input output place goal source target xs outcomes w made)
    {p : Place} (hp : ∀ rest, rest ≠ [] → p ≠ goal ++ rest) : w.get? p = v.get? p := by
  refine h.added.get?_of_not_below hf.tree hf.output hp fun m hm => ?_
  obtain ⟨x, _, hw⟩ := h.exists_of_mem_made hm
  rw [hw]
  exact x.way_ne_nil target

/-- A folder compiled into an empty folder elsewhere: each source that compiles has its file at the
mirrored way, if a file can have that name, and nothing else changes. The file is empty if the text
cannot be encoded, and then the source has failed. -/
theorem mirrored_tree {mode : CheckMode} {given : Value} {table : Table} {findings : List Finding}
    (hcheck : checkSettings mode given = .ok (table, findings)) {encoding source target : Text}
    (he : (Profile.ofTable table).encoding = some encoding)
    (hu : Encoding.find? encoding = some (.text .utf8))
    (hfast : (Profile.ofTable table).failFast = some false)
    (hlog : (Profile.ofTable table).saveErrorLog = some false)
    (hs : (Profile.ofTable table).sourceExtension = some source)
    (ht : (Profile.ofTable table).targetExtension = some target) (hss : '/' ∉ source)
    (hst : '/' ∉ target ∧ '\\' ∉ target) (hut : Path.IsUsable target) {compiler : Compiler}
    (hc : compiler.GivesText) {choice : Option Compiler} {s : Workspace}
    (hchoice : Uses (Profile.ofTable table) s choice compiler) {request : Request} {output : Path}
    (hout : request.output = some output) (hplain : '\\' ∉ output) (hfaults : s.faults = [])
    {place goal : Place}
    (hi : s.volume.Leads request.input place) (ho : s.volume.Leads output goal)
    (hf : s.volume.Fresh place goal target) :
    ∃ r t, (compilePath request (Profile.ofTable table) choice).runOn s = (.ok r, t) ∧
      (∀ rest bytes, t.volume.get? (goal ++ rest) = some (.file bytes) ↔
        ∃ x, rest = x.way target ∧ Leaves compiler (Profile.ofTable table) s.volume request.input
          place source target x bytes) ∧
      (∀ p, (∀ rest, rest ≠ [] → p ≠ goal ++ rest) → t.volume.get? p = s.volume.get? p) ∧
      (∀ way, t.volume.get? (place ++ way) = s.volume.get? (place ++ way)) ∧
      ∃ (xs : List Stem) (outcomes : List Outcome), xs.Nodup ∧
        (∀ x, x ∈ xs ↔
          ∃ content, s.volume.get? (place ++ x.way source) = some (.file content)) ∧
        r.outcomes.Perm outcomes ∧
        List.Forall₂ (Fate compiler (Profile.ofTable table) s.volume request.input output place
          source target) xs outcomes := by
  have hprofile := checked_of_checkSettings hcheck
  obtain ⟨hsne, htne⟩ := hprofile.extensions_ne_nil hs ht
  have hn : Encoding.IsName encoding := by
    obtain ⟨encoding', he', hn⟩ := hprofile.encoding
    rwa [Option.some.inj (he.symm.trans he')]
  have hroot := Path.isRoot_of_plain ho.1 hplain
  obtain ⟨r, t, xs, outcomes, made, hrun, hnodup, hxs, hsort, h⟩ := exists_runOn_compilePath_mirror
    hf hsne ⟨htne, hst⟩ hc hut he hn hu hi ho hroot hprofile hfast hlog hs ht hss hchoice rfl hout
    hfaults rfl
  refine ⟨r, t, hrun, h.get?_output hf hxs, fun p hp => h.get?_elsewhere hf hp,
    fun way => h.get?_elsewhere hf fun rest _ => hf.not_below way rest, xs, outcomes, hnodup, hxs,
    ?_, h.fates⟩
  rw [hsort]
  exact List.mergeSort_perm _ _

end Compile

end Inlay

namespace Inlay.Compile

open Inlay.Standard Inlay.Action

/-- One source in a folder of its own. -/
def sampleTree : Workspace :=
  .holding [(["in".toList], .folder), (["in".toList, "sub".toList], .folder),
    (["in".toList, "sub".toList, "a.tea".toList], .file (Utf8.encode "<?tea x ?>".toList)),
    (["out".toList], .folder)]

/-- It is compiled into an empty folder. -/
def sampleRequest : Request := ⟨"compile", "in".toList, some "out".toList, false⟩

theorem leads_sampleTree : sampleTree.volume.Leads "in".toList ["in".toList] ∧
    sampleTree.volume.Leads "out".toList ["out".toList] :=
  ⟨⟨by decide, by cbv⟩, by decide, by cbv⟩

theorem mirrored_tree_of_sample :
    ∃ r t, (compilePath sampleRequest (Profile.ofTable Setting.defaults)
        (some .passthrough)).runOn sampleTree = (.ok r, t) ∧
      t.volume.get? ["out".toList, "sub".toList, "a.php".toList] =
        some (.file (Utf8.encode "<?php x ?>".toList)) := by
  have hcheck : checkSettings .lenient (.table []) = .ok (Setting.defaults, []) := rfl
  have hc : Compiler.passthrough.GivesText := fun source => ⟨source, rfl⟩
  have hchoice : Uses (Profile.ofTable Setting.defaults) sampleTree (some .passthrough)
      .passthrough := rfl
  have hf : sampleTree.volume.Fresh ["in".toList] ["out".toList] ".php".toList :=
    .of_entries (by decide) rfl rfl (by decide) (by decide) (by decide) (by decide)
  obtain ⟨r, t, hrun, hfiles, _⟩ := mirrored_tree hcheck rfl (by rfl) rfl rfl rfl rfl (by decide)
    (by decide) (by decide) hc hchoice
    (show sampleRequest.output = some "out".toList from rfl) (by decide) rfl
    leads_sampleTree.1 leads_sampleTree.2 hf
  refine ⟨r, t, hrun, (hfiles ["sub".toList, "a.php".toList] _).2
    ⟨⟨["sub".toList], "a".toList⟩, rfl, Or.inl ⟨by decide, _, rfl, ?_⟩⟩⟩
  exact ⟨"<?tea x ?>".toList, "<?php x ?>".toList, by cbv, by cbv, by rfl⟩

/-! ### Sources without their file -/

/-- One source that is nothing but its extension. -/
def bareTree : Workspace :=
  .holding [(["in".toList], .folder),
    (["in".toList, ".tea".toList], .file (Utf8.encode "x".toList)), (["out".toList], .folder)]

/-- The default settings with another text under one key. -/
def altered (key : String) (text : Text) : Table :=
  Setting.defaults.set key (.text text)

/-- A command for a tree with an empty output folder and for settings that a check accepts, and a
source with what encoding its text comes to. -/
structure Mirrorable (key : String) (text : Text) (target : Text) (s : Workspace) (x : Stem)
    (encoded : Except CodecFault Bytes) : Prop where
  settings : checkSettings .strict (.table [(key, .text text)]) = .ok (altered key text, []) := by
    rfl
  encoding : (Profile.ofTable (altered key text)).encoding = some "utf-8".toList := by rfl
  failFast : (Profile.ofTable (altered key text)).failFast = some false := by rfl
  errorLog : (Profile.ofTable (altered key text)).saveErrorLog = some false := by rfl
  sourceGiven : (Profile.ofTable (altered key text)).sourceExtension = some ".tea".toList := by rfl
  targetGiven : (Profile.ofTable (altered key text)).targetExtension = some target := by rfl
  plain : '/' ∉ target ∧ '\\' ∉ target := by decide
  faults : s.faults = [] := by rfl
  input : s.volume.Leads "in".toList ["in".toList] := by exact ⟨by decide, by cbv⟩
  output : s.volume.Leads "out".toList ["out".toList] := by exact ⟨by decide, by cbv⟩
  fresh : s.volume.Fresh ["in".toList] ["out".toList] target := by
    exact .of_entries (by decide) rfl rfl (by decide) (by decide) (by decide) (by decide)
  transformed : ∃ content read out,
    s.volume.get? (["in".toList] ++ x.way ".tea".toList) = some (.file content) ∧
      Codec.utf8.decode content = .ok read ∧
      transform .passthrough (Profile.ofTable (altered key text)).tags
        (Path.descend "in".toList (x.way ".tea".toList)) read = .ok out ∧
      Codec.utf8.encode out = encoded

def mirrorRun (key : String) (text : Text) (s : Workspace) : Except Failure Result × Workspace :=
  (compilePath sampleRequest (Profile.ofTable (altered key text)) (some .passthrough)).runOn s

/-- Where such a source is not mirrored, it has failed. -/
theorem Mirrorable.exists_failed {key : String} {text target : Text} {s : Workspace} {x : Stem}
    {encoded : Except CodecFault Bytes} (h : Mirrorable key text target s x encoded)
    (hu : Path.IsUsable target) (hno : ∀ bytes, ¬ Mirrors .passthrough
      (Profile.ofTable (altered key text)) s.volume "in".toList ["in".toList] ".tea".toList target x
      bytes) :
    ∃ r t, mirrorRun key text s = (.ok r, t) ∧ (∃ o ∈ r.outcomes, o.ok = false) ∧
      ∀ rest bytes, t.volume.get? (["out".toList] ++ rest) = some (.file bytes) ↔
        ∃ x, rest = x.way target ∧ Leaves .passthrough (Profile.ofTable (altered key text)) s.volume
          "in".toList ["in".toList] ".tea".toList target x bytes := by
  have hchecked := checked_of_checkSettings h.settings
  have hc : Compiler.passthrough.GivesText := fun source => ⟨source, rfl⟩
  have hchoice : Uses (Profile.ofTable (altered key text)) s (some .passthrough) .passthrough := rfl
  obtain ⟨r, t, xs, outcomes, made, hrun, _, hxs, hsort, hprogress⟩ :=
    exists_runOn_compilePath_mirror h.fresh (by decide)
      ⟨(hchecked.extensions_ne_nil h.sourceGiven h.targetGiven).2, h.plain⟩ hc hu h.encoding
      Encoding.isName_default (by rfl) h.input h.output (by decide) hchecked h.failFast h.errorLog
      h.sourceGiven h.targetGiven (by decide) hchoice
      (show sampleRequest.input = "in".toList from rfl) rfl h.faults rfl
  obtain ⟨content, _, _, hfile, _⟩ := h.transformed
  obtain ⟨o, hmem, ⟨⟨bytes, hm⟩, _⟩ | ⟨_, message, rfl⟩⟩ :=
    hprogress.exists_fate ((hxs x).2 ⟨content, hfile⟩)
  · exact absurd hm (hno bytes)
  · exact ⟨r, t, hrun, ⟨_, by rw [hsort]; exact mem_sort.2 hmem, rfl⟩,
      hprogress.get?_output h.fresh hxs⟩

/-- With the target extension `.` the output would be the folder that it is in. -/
theorem mirrorable_bare : Mirrorable Setting.targetExtension ".".toList ".".toList bareTree ⟨[], []⟩
    (.ok (Utf8.encode "x".toList)) where
  transformed := ⟨_, "x".toList, "x".toList, rfl, rfl, by cbv, by rfl⟩

/-- A target extension that no path can have. -/
theorem mirrorable_zero : Mirrorable Setting.targetExtension ".p\x00p".toList ".p\x00p".toList
    sampleTree ⟨["sub".toList], "a".toList⟩ (.ok (Utf8.encode "<?php x ?>".toList)) where
  transformed := ⟨_, "<?tea x ?>".toList, "<?php x ?>".toList, rfl, by cbv, by cbv, by rfl⟩

def surrogate : Char := Char.ofNat alphabet.first

/-- A marker that cannot be encoded. -/
theorem mirrorable_surrogate : Mirrorable Setting.targetOpenTag [surrogate] ".php".toList sampleTree
    ⟨["sub".toList], "a".toList⟩ (.error (.unencodable "utf-8" surrogate 0 1 .surrogate)) where
  transformed := ⟨_, "<?tea x ?>".toList, surrogate :: " x ?>".toList, rfl, by cbv, by cbv, by cbv⟩

/-- A source whose text can be encoded fails and has no file; another one ends the whole command;
and one whose text cannot be encoded fails and leaves an empty file. -/
theorem exists_unmirrored_source :
    (Mirrorable Setting.targetExtension ".".toList ".".toList bareTree ⟨[], []⟩
        (.ok (Utf8.encode "x".toList)) ∧
      ∃ r t, mirrorRun Setting.targetExtension ".".toList bareTree = (.ok r, t) ∧
        (∃ o ∈ r.outcomes, o.ok = false) ∧
        ∀ way bytes, t.volume.get? (["out".toList] ++ way) ≠ some (.file bytes)) ∧
    (Mirrorable Setting.targetExtension ".p\x00p".toList ".p\x00p".toList sampleTree
        ⟨["sub".toList], "a".toList⟩ (.ok (Utf8.encode "<?php x ?>".toList)) ∧
      ∃ t, mirrorRun Setting.targetExtension ".p\x00p".toList sampleTree =
        (.error (.noPath .zero), t)) ∧
    Mirrorable Setting.targetOpenTag [surrogate] ".php".toList sampleTree
        ⟨["sub".toList], "a".toList⟩ (.error (.unencodable "utf-8" surrogate 0 1 .surrogate)) ∧
      ∃ r t, mirrorRun Setting.targetOpenTag [surrogate] sampleTree = (.ok r, t) ∧
        (∃ o ∈ r.outcomes, o.ok = false) ∧
        t.volume.get? ["out".toList, "sub".toList, "a.php".toList] = some (.file []) := by
  refine ⟨⟨mirrorable_bare, ?_⟩, ⟨mirrorable_zero, _, by cbv⟩, mirrorable_surrogate, ?_⟩
  · have hnot : ¬ Path.IsName ([] ++ ".".toList) := by decide
    obtain ⟨r, t, hrun, hfailed, hfiles⟩ :=
      mirrorable_bare.exists_failed (by decide) fun bytes hm => hnot hm.1
    refine ⟨r, t, hrun, hfailed, fun way bytes hw => ?_⟩
    obtain ⟨x, _, hx⟩ := (hfiles way bytes).1 hw
    have hname : Path.IsName (x.kept ++ ".".toList) ∧
        ∃ content, bareTree.volume.get? (["in".toList] ++ x.way ".tea".toList) =
          some (.file content) := by
      rcases hx with ⟨hname, content, hc, _⟩ | ⟨⟨hname, content, _, _, _, hc, _⟩, _⟩
      · exact ⟨hname, content, hc⟩
      · exact ⟨hname, content, hc⟩
    obtain ⟨hname, content, hcontent⟩ := hname
    have hentry := Volume.mem_entries_of_get? (by simp) hcontent
    have hway : x.way ".tea".toList = Stem.way ⟨[], []⟩ ".tea".toList := by
      simp only [bareTree, Workspace.holding, List.cons_append, List.nil_append, List.mem_cons,
        Prod.mk.injEq, List.cons.injEq, true_and, reduceCtorEq, and_false, false_or,
        Entry.file.injEq, List.not_mem_nil, or_false] at hentry
      exact hentry.1
    rw [Stem.way_injective _ hway] at hname
    exact hnot hname
  · have hwrong : Unwritable .passthrough
        (Profile.ofTable (altered Setting.targetOpenTag [surrogate])) sampleTree.volume
        "in".toList ["in".toList] ".tea".toList ".php".toList ⟨["sub".toList], "a".toList⟩ := by
      obtain ⟨content, read, out, hfile, hd, ht, he⟩ := mirrorable_surrogate.transformed
      exact ⟨by decide, content, read, out, _, hfile, hd, ht, he⟩
    obtain ⟨r, t, hrun, hfailed, hfiles⟩ :=
      mirrorable_surrogate.exists_failed (by decide) fun bytes hm => hm.not_unwritable hwrong
    exact ⟨r, t, hrun, hfailed, (hfiles ["sub".toList, "a.php".toList] []).2
      ⟨_, rfl, Or.inr ⟨hwrong, rfl⟩⟩⟩

end Inlay.Compile
