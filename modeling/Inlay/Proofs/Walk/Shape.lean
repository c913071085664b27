import Inlay.Command.Compile
import Inlay.Proofs.Volume.Tree
import Inlay.Proofs.Workspace.Run

/-!
# What a walk may return

Whatever fails on the way, a walk leaves the volume alone, and every path it returns enters names
of entries from the root on (`exists_ways_of_walkFiles`).
-/

namespace Inlay

open Inlay.Action

/-! ### Members of what a loop returns -/

theorem Action.exists_of_mem_flatMapM {α β : Type} {f : α → Action (List β)}
    (hk : ∀ x, Keeps (f x)) {xs : List α} {s t : Workspace} {ys : List β}
    (h : (xs.flatMapM f).runOn s = (.ok ys, t)) {y : β} (hy : y ∈ ys) :
    ∃ x ∈ xs, ∃ s' t' zs, s'.volume = s.volume ∧ (f x).runOn s' = (.ok zs, t') ∧ y ∈ zs := by
  induction xs generalizing s t ys with
  | nil =>
    simp only [List.flatMapM_nil, runOn_pure, Prod.mk.injEq, Except.ok.injEq] at h
    simp [← h.1] at hy
  | cons x xs ih =>
    rw [List.flatMapM_cons] at h
    obtain ⟨zs, s₁, hx, h⟩ := exists_of_runOn_bind h
    obtain ⟨rest, s₂, hxs, h⟩ := exists_of_runOn_bind h
    simp only [runOn_pure, Prod.mk.injEq, Except.ok.injEq] at h
    rw [← h.1] at hy
    rcases List.mem_append.1 hy with hy | hy
    · exact ⟨x, List.mem_cons_self .., s, s₁, zs, rfl, hx, hy⟩
    · obtain ⟨x', hx', s', t', zs', hv, hr, hm⟩ := ih hxs hy
      exact ⟨x', List.mem_cons_of_mem _ hx', s', t', zs', hv.trans ((hk x).volume_eq hx), hr, hm⟩

theorem Action.exists_of_mem_mapM {α β : Type} {f : α → Action β} {xs : List α} {s t : Workspace}
    {ys : List β} (h : (xs.mapM f).runOn s = (.ok ys, t)) {y : β} (hy : y ∈ ys) :
    ∃ x ∈ xs, ∃ s' t', (f x).runOn s' = (.ok y, t') := by
  induction xs generalizing s t ys with
  | nil =>
    simp only [List.mapM_nil, runOn_pure, Prod.mk.injEq, Except.ok.injEq] at h
    simp [← h.1] at hy
  | cons x xs ih =>
    rw [List.mapM_cons] at h
    obtain ⟨z, s₁, hx, h⟩ := exists_of_runOn_bind h
    obtain ⟨rest, s₂, hxs, h⟩ := exists_of_runOn_bind h
    simp only [runOn_pure, Prod.mk.injEq, Except.ok.injEq] at h
    rw [← h.1] at hy
    rcases List.mem_cons.1 hy with rfl | hy
    · exact ⟨x, List.mem_cons_self .., s, s₁, hx⟩
    · obtain ⟨x', hx', r⟩ := ih hxs hy
      exact ⟨x', List.mem_cons_of_mem _ hx', r⟩

namespace Walk

/-! ### The volume -/

theorem keeps_statEntry (path : Path) : Keeps (statEntry path) := by
  unfold statEntry
  refine keeps_bind (keeps_guard _ _) fun _ => keeps_bind keeps_get fun s => ?_
  cases s.volume.stat path with
  | ok entry => exact keeps_pure _
  | error e => exact keeps_throw _

theorem keeps_listFolder (path : Path) : Keeps (listFolder path) := by
  unfold listFolder
  refine keeps_bind (keeps_guard _ _) fun _ => keeps_bind keeps_get fun s => ?_
  cases s.volume.list path with
  | ok names => exact keeps_pure _
  | error e => exact keeps_throw _

theorem keeps_statRetrying (path : Path) (more : Nat) : Keeps (statRetrying path more) := by
  induction more with
  | zero => exact keeps_attempt (keeps_statEntry path)
  | succ more ih =>
    unfold statRetrying
    refine keeps_bind (keeps_attempt (keeps_statEntry path)) fun r => ?_
    cases r with
    | ok entry => exact keeps_pure _
    | error f => exact ih

variable [Host]

theorem keeps_classify (policy : StatPolicy) (retries : Int) (path : Path) :
    Keeps (classify policy retries path) := by
  unfold classify
  refine keeps_bind (keeps_statRetrying _ _) fun r => ?_
  cases r with
  | ok entry => exact keeps_pure _
  | error f =>
    cases policy with
    | assumeFile => exact keeps_bind (keeps_log _ _ _) fun _ => keeps_pure _
    | skip => exact keeps_bind (keeps_log _ _ _) fun _ => keeps_pure _
    | retry => exact keeps_bind (keeps_log _ _ _) fun _ => keeps_pure _

theorem keeps_entries (folder : Path) : Keeps (entries folder) := by
  unfold entries
  refine keeps_bind (keeps_attempt (keeps_listFolder folder)) fun r => ?_
  cases r with
  | ok names => exact keeps_pure _
  | error f => exact keeps_throw _

theorem keeps_classifyEach (policy : StatPolicy) (retries : Int) (path : Path) :
    Keeps (do
      let isFolder ← classify policy retries path
      pure (path, isFolder)) :=
  keeps_bind (keeps_classify policy retries path) fun _ => keeps_pure _

theorem keeps_below (policy : StatPolicy) (retries : Int) (levels : Nat) (folders : List Path) :
    Keeps (below policy retries levels folders) := by
  induction levels generalizing folders with
  | zero =>
    cases folders with
    | nil => exact keeps_pure _
    | cons folder more => exact keeps_pure _
  | succ levels ih =>
    cases folders with
    | nil => exact keeps_pure _
    | cons folder more =>
      unfold below
      refine keeps_bind (keeps_flatMapM keeps_entries _) fun paths => ?_
      refine keeps_bind (keeps_mapM (keeps_classifyEach policy retries) _) fun classified => ?_
      exact keeps_bind (ih _) fun _ => keeps_pure _

theorem keeps_files (policy : StatPolicy) (retries : Int) (root : Path) :
    Keeps (files policy retries root) :=
  keeps_bind keeps_get fun _ => keeps_below _ _ _ _

theorem keeps_walkFiles (profile : Profile) (root : Path) :
    Keeps (Compile.walkFiles profile root) := by
  unfold Compile.walkFiles
  refine keeps_bind (keeps_need _ _) fun name => keeps_bind ?_ fun policy => ?_
  · unfold Walk.policy
    split
    · exact keeps_pure _
    · exact keeps_throw _
  · exact keeps_bind (keeps_need _ _) fun retries => keeps_files _ _ _

/-! ### The paths -/

theorem named_of_mem_listFolder {folder : Path} {s t : Workspace} {names : List Text}
    (hv : s.volume.Named) (h : (listFolder folder).runOn s = (.ok names, t)) :
    ∀ n ∈ names, Path.IsName n ∧ Path.IsUsable n := by
  unfold listFolder at h
  obtain ⟨_, s₁, hg, h⟩ := exists_of_runOn_bind h
  have hvol : s₁.volume = s.volume := (keeps_guard .list folder).volume_eq hg
  rw [runOn_bind_of_ok (runOn_get s₁), hvol] at h
  cases hl : s.volume.list folder with
  | error e => simp [hl] at h
  | ok names' =>
    simp only [hl, runOn_pure, Prod.mk.injEq, Except.ok.injEq] at h
    rw [← h.1]
    exact Volume.named_of_mem_list hv hl

theorem exists_name_of_entries {folder path : Path} {s t : Workspace} {paths : List Path}
    (hv : s.volume.Named) (h : (entries folder).runOn s = (.ok paths, t)) (hp : path ∈ paths) :
    ∃ name, (Path.IsName name ∧ Path.IsUsable name) ∧ path = Path.join folder name := by
  unfold entries at h
  obtain ⟨r, s₁, hl, h⟩ := exists_of_runOn_bind h
  cases r with
  | error f => simp at h
  | ok names =>
    simp only [runOn_pure, Prod.mk.injEq, Except.ok.injEq] at h
    simp only [runOn_attempt, Prod.mk.injEq, Except.ok.injEq] at hl
    rw [← h.1] at hp
    obtain ⟨name, hn, rfl⟩ := List.mem_map.1 hp
    exact ⟨name, named_of_mem_listFolder hv (Prod.ext hl.1 hl.2) name hn, rfl⟩

omit [Host] in
theorem mem_of_mem_pick {classified : List (Path × Option Bool)} {kind : Bool} {path : Path}
    (h : path ∈ classified.filterMap fun (path, isFolder) =>
      if isFolder = some kind then some path else none) : (path, some kind) ∈ classified := by
  obtain ⟨⟨path', isFolder⟩, hm, he⟩ := List.mem_filterMap.1 h
  simp only at he
  split at he
  · next hk =>
    simp only [Option.some.injEq] at he
    rwa [← he, ← hk]
  · simp at he

/-- A classified path is an entry of one of the folders. -/
theorem exists_name_of_classified {policy : StatPolicy} {retries : Int} {folders paths : List Path}
    {classified : List (Path × Option Bool)} {path : Path} {kind : Option Bool}
    {s t u : Workspace} (hv : s.volume.Named)
    (hpaths : (folders.flatMapM entries).runOn s = (.ok paths, t))
    (hclass : (paths.mapM fun path => do
      let isFolder ← classify policy retries path
      pure (path, isFolder)).runOn t = (.ok classified, u))
    (hc : (path, kind) ∈ classified) :
    ∃ folder ∈ folders, ∃ name, (Path.IsName name ∧ Path.IsUsable name) ∧
      path = Path.join folder name := by
  obtain ⟨path', hin, s', t', hr⟩ := exists_of_mem_mapM hclass hc
  obtain ⟨kind', s'', _, hr⟩ := exists_of_runOn_bind hr
  simp only [runOn_pure, Prod.mk.injEq, Except.ok.injEq] at hr
  rw [hr.1.1] at hin
  obtain ⟨folder, hm, s', t', zs, hvol, he, hz⟩ := exists_of_mem_flatMapM keeps_entries hpaths hin
  exact ⟨folder, hm, exists_name_of_entries (by rw [hvol]; exact hv) he hz⟩

theorem exists_names_of_below {policy : StatPolicy} {retries : Int} {levels : Nat}
    {folders files : List Path} {file : Path} {s t : Workspace} (hv : s.volume.Named)
    (h : (below policy retries levels folders).runOn s = (.ok files, t)) (hf : file ∈ files) :
    ∃ folder ∈ folders, ∃ names, names ≠ [] ∧ (∀ n ∈ names, Path.IsName n ∧ Path.IsUsable n) ∧
      file = Path.descend folder names := by
  induction levels generalizing folders files s t with
  | zero =>
    cases folders with
    | nil =>
      simp only [below, runOn_pure, Prod.mk.injEq, Except.ok.injEq] at h
      simp [← h.1] at hf
    | cons folder more =>
      simp only [below, runOn_pure, Prod.mk.injEq, Except.ok.injEq] at h
      simp [← h.1] at hf
  | succ levels ih =>
    cases folders with
    | nil =>
      simp only [below, runOn_pure, Prod.mk.injEq, Except.ok.injEq] at h
      simp [← h.1] at hf
    | cons folder more =>
      unfold below at h
      obtain ⟨paths, s₁, hpaths, h⟩ := exists_of_runOn_bind h
      obtain ⟨classified, s₂, hclass, h⟩ := exists_of_runOn_bind h
      obtain ⟨deeper, s₃, hdeep, h⟩ := exists_of_runOn_bind h
      simp only [runOn_pure, Prod.mk.injEq, Except.ok.injEq] at h
      rw [← h.1] at hf
      have hv₁ := (keeps_flatMapM keeps_entries (folder :: more)).volume_eq hpaths
      have hv₂ := (keeps_mapM (keeps_classifyEach policy retries) paths).volume_eq hclass
      rcases List.mem_append.1 hf with hf | hf
      · obtain ⟨folder', hm, name, hn, rfl⟩ :=
          exists_name_of_classified hv hpaths hclass (mem_of_mem_pick hf)
        exact ⟨folder', hm, [name], by simp, by simpa using hn, rfl⟩
      · obtain ⟨folder', hm, names, hne, hnames, rfl⟩ := ih (by rw [hv₂, hv₁]; exact hv) hdeep hf
        obtain ⟨folder'', hm', name, hn, rfl⟩ :=
          exists_name_of_classified hv hpaths hclass (mem_of_mem_pick hm)
        refine ⟨folder'', hm', name :: names, by simp, ?_, rfl⟩
        simpa using ⟨hn, hnames⟩

omit [Host] in
theorem exists_map_of_forall {α β : Type} {f : α → β} {P : α → Prop} {ys : List β}
    (h : ∀ y ∈ ys, ∃ x, P x ∧ y = f x) : ∃ xs : List α, ys = xs.map f ∧ ∀ x ∈ xs, P x := by
  induction ys with
  | nil => exact ⟨[], rfl, by simp⟩
  | cons y ys ih =>
    obtain ⟨x, hx, rfl⟩ := h y (List.mem_cons_self ..)
    obtain ⟨xs, rfl, hxs⟩ := ih fun z hz => h z (List.mem_cons_of_mem _ hz)
    exact ⟨x :: xs, rfl, by simpa using ⟨hx, hxs⟩⟩

theorem exists_ways_of_files {policy : StatPolicy} {retries : Int} {root : Path}
    {found : List Path} {s t : Workspace} (hv : s.volume.Named)
    (h : (files policy retries root).runOn s = (.ok found, t)) :
    ∃ ways : List (List Text), found = ways.map (Path.descend root) ∧
      ∀ way ∈ ways, way ≠ [] ∧ ∀ n ∈ way, Path.IsName n ∧ Path.IsUsable n := by
  refine exists_map_of_forall fun file hf => ?_
  unfold files at h
  rw [runOn_bind_of_ok (runOn_get s)] at h
  obtain ⟨folder, hm, names, hne, hnames, he⟩ := exists_names_of_below hv h hf
  rw [List.mem_singleton.1 hm] at he
  exact ⟨names, ⟨hne, hnames⟩, he⟩

/-- A walk of the settings is a walk with the policy that they name. -/
theorem exists_files_of_walkFiles {profile : Profile} {root : Path} {found : List Path}
    {s t : Workspace} (h : (Compile.walkFiles profile root).runOn s = (.ok found, t)) :
    ∃ policy retries, (files policy retries root).runOn s = (.ok found, t) := by
  unfold Compile.walkFiles at h
  obtain ⟨name, s₁, hn, h⟩ := exists_of_runOn_bind h
  obtain ⟨policy, s₂, hp, h⟩ := exists_of_runOn_bind h
  obtain ⟨retries, s₃, hr, h⟩ := exists_of_runOn_bind h
  have hs₁ := (eq_of_runOn_need hn).2
  have hs₂ : s₂ = s₁ := by
    unfold Walk.policy at hp
    split at hp
    · simp only [runOn_pure, Prod.mk.injEq] at hp
      exact hp.2.symm
    · simp at hp
  have hs₃ := (eq_of_runOn_need hr).2
  rw [hs₃, hs₂, hs₁] at h
  exact ⟨policy, retries, h⟩

theorem exists_ways_of_walkFiles {profile : Profile} {root : Path} {files : List Path}
    {s t : Workspace} (hv : s.volume.Named)
    (h : (Compile.walkFiles profile root).runOn s = (.ok files, t)) :
    ∃ ways : List (List Text), files = ways.map (Path.descend root) ∧
      ∀ way ∈ ways, way ≠ [] ∧ ∀ n ∈ way, Path.IsName n ∧ Path.IsUsable n := by
  obtain ⟨policy, retries, hfiles⟩ := exists_files_of_walkFiles h
  exact exists_ways_of_files hv hfiles

end Walk

end Inlay
