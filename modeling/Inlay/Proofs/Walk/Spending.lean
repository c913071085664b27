import Inlay.Command.Compile
import Inlay.Proofs.Settings.Checked
import Inlay.Proofs.Volume.Writing
import Inlay.Proofs.Walk.Leaves
import Inlay.Proofs.Walk.Shape

/-!
# What a walk uses up

A walk lists folders and reads the states of entries, so faults of any other operation are as
pending after it as before (`spendsOnly_files`). A walk that has returned its files once returns
them again from every workspace with the same volume and the same faults (`Repeats`).
-/

namespace Inlay.Walk

variable [Host]

open Inlay.Action

/-- What a walk asks of the volume. -/
def asks (op : FileOp) (_ : Path) : Prop :=
  op = .list ∨ op = .stat

theorem spendsOnly_entries (folder : Path) : SpendsOnly asks (entries folder) :=
  (spendsOnly_of_looks fun s => ⟨_, looks_entries folder s⟩).mono fun _ _ hk => Or.inl hk.1

theorem spendsOnly_classify (policy : StatPolicy) (retries : Int) (path : Path) :
    SpendsOnly asks (classify policy retries path) :=
  (spendsOnly_of_looks fun s => ⟨_, looks_classify policy retries path s⟩).mono
    fun _ _ hk => Or.inr hk.1

theorem spendsOnly_below (policy : StatPolicy) (retries : Int) (levels : Nat)
    (folders : List Path) : SpendsOnly asks (below policy retries levels folders) := by
  induction levels generalizing folders with
  | zero => cases folders <;> exact spendsOnly_pure _
  | succ levels ih =>
    by_cases hne : folders = []
    · rw [hne]
      exact spendsOnly_pure _
    · rw [below_succ policy retries levels hne]
      exact spendsOnly_bind (spendsOnly_flatMapM spendsOnly_entries _) fun paths =>
        spendsOnly_bind (spendsOnly_mapM (fun path => spendsOnly_bind
          (spendsOnly_classify policy retries path) fun _ => spendsOnly_pure _) _) fun _ =>
          spendsOnly_bind (ih _) fun _ => spendsOnly_pure _

theorem spendsOnly_files (policy : StatPolicy) (retries : Int) (root : Path) :
    SpendsOnly asks (files policy retries root) := by
  intro s
  unfold files
  rw [runOn_bind_of_ok (runOn_get s)]
  exact spendsOnly_below _ _ _ _ s

/-! ### The walk of a command -/

theorem runOn_walkFiles {profile : Profile} {policy : StatPolicy} {retries : Int} {root : Path}
    (hpolicy : profile.statPolicy = some policy.name.toList)
    (hretries : profile.statRetries = some retries) (t : Workspace) :
    (Compile.walkFiles profile root).runOn t = (files policy retries root).runOn t := by
  have hpol : (Walk.policy policy.name.toList).runOn t = (.ok policy, t) := by
    rw [Walk.policy, StatPolicy.ofName?_name]
    rfl
  unfold Compile.walkFiles
  rw [runOn_bind_of_ok (runOn_need_some hpolicy t), runOn_bind_of_ok hpol,
    runOn_bind_of_ok (runOn_need_some hretries t)]

theorem exists_runOn_walkFiles_eq {profile : Profile} (h : profile.Checked) (root : Path) :
    ∃ policy retries, profile.statPolicy = some policy.name.toList ∧ ∀ t,
      (Compile.walkFiles profile root).runOn t = (files policy retries root).runOn t := by
  obtain ⟨name, hname, hsome⟩ := h.statPolicy
  obtain ⟨policy, hpolicy⟩ := Option.isSome_iff_exists.1 hsome
  obtain ⟨retries, hretries, _⟩ := h.statRetries
  rw [Check.eq_name_of_ofName? hpolicy] at hname
  exact ⟨policy, retries, hname, runOn_walkFiles hname hretries⟩

omit [Host] in
theorem isFolder_of_list {v : Volume} {path : Path} {names : List Text}
    (h : v.list path = .ok names) : v.isFolder path = true := by
  obtain ⟨place, hlocate, hfolder, _⟩ := Volume.list_eq_ok_iff.1 h
  exact Volume.isFolder_iff.2 ⟨place, hlocate, hfolder⟩

omit [Host] in
theorem Fresh.of_asks {s t : Workspace} (hv : t.volume = s.volume)
    (hf : ∀ op path, asks op path → concerning op path t.faults = concerning op path s.faults)
    (root : Path) (depth : Nat) : Fresh s root depth t :=
  ⟨hv, fun _ _ _ => hf _ _ (Or.inl rfl), fun _ _ _ => hf _ _ (Or.inr rfl)⟩

/-- A walk that has returned its files returns them whenever what it asks for is the same. -/
theorem exists_runOn_walkFiles_of_fresh {profile : Profile} (hprofile : profile.Checked)
    {root : Path} {s t w : Workspace} (hv : s.volume.Sound) {paths : List Path}
    (hwalk : (Compile.walkFiles profile root).runOn s = (.ok paths, w)) (ht : Fresh s root 0 t) :
    ∃ u, (Compile.walkFiles profile root).runOn t = (.ok paths, u) ∧ u.volume = s.volume ∧
      Spends asks t.faults u.faults := by
  obtain ⟨policy, retries, _, heq⟩ := exists_runOn_walkFiles_eq hprofile root
  rw [heq] at hwalk ⊢
  rcases files_gives_of_fresh hv policy retries root with
    ⟨ways, _, hfiles⟩ | ⟨way, e, _, _, hfails⟩
  · obtain ⟨_, _, hrun⟩ := hfiles s (Fresh.of_eq rfl rfl 0)
    obtain rfl := Except.ok.inj (Prod.mk.inj (hwalk.symm.trans hrun)).1
    obtain ⟨u, hu, hrun⟩ := hfiles t ht
    exact ⟨u, hrun, hu, (spendsOnly_files policy retries root).of_runOn hrun⟩
  · obtain ⟨_, _, hrun⟩ := hfails s (Fresh.of_eq rfl rfl 0)
    rw [hrun] at hwalk
    simp at hwalk

/-- What a walk gives has a path that is accepted. -/
theorem isUsable_of_files {s t : Workspace} (hv : s.volume.Sound) {root : Path}
    (hfolder : s.volume.isFolder root = true) {policy : StatPolicy} {retries : Int}
    {found : List Path} (h : (files policy retries root).runOn s = (.ok found, t)) :
    ∀ file ∈ found, Path.IsUsable file := by
  obtain ⟨ways, rfl, hways⟩ := exists_ways_of_files hv.named h
  have hroot : Path.IsUsable root :=
    hv.isUsable_of_stat (Volume.stat_eq_ok_iff.2 (Volume.isFolder_iff.1 hfolder))
  intro file hfile
  obtain ⟨way, hway, rfl⟩ := List.mem_map.1 hfile
  exact Path.isUsable_descend hroot fun n hn => ((hways way hway).2 n hn).2

/-- A walk of a command below a folder gives its files, each once, and gives them again. -/
structure Repeats (profile : Profile) (root : Path) (s : Workspace) (files : List Path) : Prop where
  isFolder : s.volume.isFolder root = true
  nodup : files.Nodup
  usable : ∀ file ∈ files, Path.IsUsable file
  again : ∀ t : Workspace, t.volume = s.volume → t.faults = s.faults → ∃ u : Workspace,
    (Compile.walkFiles profile root).runOn t = (.ok files, u) ∧ u.volume = s.volume ∧
      Spends asks s.faults u.faults

theorem repeats_of_walkFiles {profile : Profile} (hprofile : profile.Checked) {root : Path}
    {s w : Workspace} (hv : s.volume.Sound) {paths : List Path}
    (hwalk : (Compile.walkFiles profile root).runOn s = (.ok paths, w)) :
    Repeats profile root s paths := by
  have hagain (t : Workspace) (hvt : t.volume = s.volume) (hft : t.faults = s.faults) :=
    exists_runOn_walkFiles_of_fresh hprofile hv hwalk (Fresh.of_eq hvt hft 0)
  obtain ⟨policy, retries, _, heq⟩ := exists_runOn_walkFiles_eq hprofile root
  rw [heq] at hwalk
  rcases files_gives hv policy retries root with ⟨ways, hfound, hfiles⟩ | ⟨way, e, _, _, hfails⟩
  · obtain ⟨_, _, hrun⟩ := hfiles s rfl rfl
    obtain rfl := Except.ok.inj (Prod.mk.inj (hwalk.symm.trans hrun)).1
    obtain ⟨names, hlisted⟩ :=
      hfound.listed [] reached_nil ⟨[], List.mem_singleton_self _, List.prefix_refl _⟩
    have hfolder := isFolder_of_list (list_of_listing hlisted)
    exact ⟨hfolder, hfound.nodup_descend hv, isUsable_of_files hv hfolder hrun,
      fun t hvt hft => hft ▸ hagain t hvt hft⟩
  · obtain ⟨_, _, hrun⟩ := hfails s rfl rfl
    rw [hrun] at hwalk
    simp at hwalk

end Inlay.Walk
