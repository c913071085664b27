import Inlay.Command.Walk
import Inlay.Proofs.Path.Components
import Inlay.Proofs.Workspace.Pending

/-!
# What a walk finds out

The state of an entry is found out if fewer readings fail than are made (`Classified`), and a folder
is listed once (`listing`). A walk reaches the folders that are listed by the one before them and
found out to be folders (`Reached`).
-/

namespace Inlay.Walk

open Inlay.Action

/-! ### Single entries -/

/-- How many readings of the state of an entry fail before the first one that does not. -/
def failedReadings (s : Workspace) (path : Path) : ℕ∞ :=
  match s.volume.stat path with
  | .ok _ => failures .stat path s.faults
  | .error _ => ⊤

def Classified (s : Workspace) (policy : StatPolicy) (retries : Int) (path : Path) : Prop :=
  failedReadings s path < attempts policy retries

/-- What the names in a folder are, or why they cannot be listed. -/
def listing (s : Workspace) (folder : Path) : Except OsError (List Text) :=
  match (planned .list folder s.faults).1 with
  | some e => .error (.of e folder)
  | none => match s.volume.list folder with
    | .ok names => .ok names
    | .error e => .error (.of e folder)

theorem looks_statEntry (s : Workspace) (path : Path) :
    ∃ r t, (statEntry path).runOn s = (r, t) ∧ t.volume = s.volume ∧
      Spends (fun o p => o = .stat ∧ p = path) s.faults t.faults ∧
      ((∃ entry, s.volume.stat path = .ok entry ∧ r = .ok entry ∧ failedReadings s path = 0) ∨
        (∃ f, r = .error f) ∧ failedReadings s path = failedReadings t path + 1) := by
  unfold statEntry
  rcases planned_cases .stat path s.faults with ⟨hp, hz⟩ | ⟨e, plan, hp, hn⟩
  · have hguard : (guard .stat path).runOn s = (.ok (), s) := by
      rw [runOn_guard, hp]
    rw [runOn_bind_of_ok hguard, runOn_bind_of_ok (runOn_get s)]
    cases hs : s.volume.stat path with
    | ok entry =>
      refine ⟨_, s, rfl, rfl, Spends.refl _ _, Or.inl ⟨entry, rfl, rfl, ?_⟩⟩
      rw [failedReadings, hs]
      exact hz
    | error e =>
      refine ⟨_, s, rfl, rfl, Spends.refl _ _, Or.inr ⟨⟨_, rfl⟩, ?_⟩⟩
      rw [failedReadings, hs]
      rfl
  · have hguard : (guard .stat path).runOn s =
        (.error (.os (.of e path)), { s with faults := plan }) := by
      rw [runOn_guard, hp]
    rw [runOn_bind_of_error hguard]
    refine ⟨_, _, rfl, rfl, ?_, Or.inr ⟨⟨_, rfl⟩, ?_⟩⟩
    · have hspends := spends_planned .stat path s.faults
      rwa [hp] at hspends
    · simp only [failedReadings]
      cases s.volume.stat path with
      | ok entry => exact hn
      | error e => rfl

/-- The first reading that does not fail counts, and there are `more` after the first one. -/
theorem looks_statRetrying (path : Path) (more : Nat) (s : Workspace) :
    ∃ r, Looks (fun o p => o = .stat ∧ p = path) (statRetrying path more) s (.ok r) ∧
      (failedReadings s path < ((more + 1 : ℕ) : ℕ∞) →
        ∃ entry, s.volume.stat path = .ok entry ∧ r = .ok entry) ∧
      (¬ failedReadings s path < ((more + 1 : ℕ) : ℕ∞) → ∃ f, r = .error f) := by
  induction more generalizing s with
  | zero =>
    obtain ⟨r, t, hr, hv, hf, hcases⟩ := looks_statEntry s path
    refine ⟨r, ⟨t, ?_, hv, hf⟩, ?_⟩
    · show (attempt (statEntry path)).runOn s = (.ok r, t)
      rw [runOn_attempt, hr]
    · rcases hcases with ⟨entry, hstat, rfl, hz⟩ | ⟨hfails, hn⟩
      · refine ⟨fun _ => ⟨entry, hstat, rfl⟩, fun hnot => absurd ?_ hnot⟩
        rw [hz]
        exact zero_lt_one
      · refine ⟨fun hlt => absurd hlt ?_, fun _ => hfails⟩
        rw [hn]
        simp
  | succ more ih =>
    obtain ⟨r, t, hr, hv, hf, hcases⟩ := looks_statEntry s path
    have hattempt : (attempt (statEntry path)).runOn s = (.ok r, t) := by
      rw [runOn_attempt, hr]
    unfold statRetrying
    rcases hcases with ⟨entry, hstat, rfl, hz⟩ | ⟨⟨f, rfl⟩, hn⟩
    · refine ⟨.ok entry, ⟨t, runOn_bind_of_ok hattempt, hv, hf⟩, fun _ => ⟨entry, hstat, rfl⟩,
        fun hnot => absurd ?_ hnot⟩
      rw [hz]
      exact ENat.natCast_lt_natCast.2 (Nat.succ_pos _)
    · obtain ⟨r, ⟨u, hu, huv, huf⟩, hok, hfails⟩ := ih t
      have hlt : failedReadings s path < ((more + 1 + 1 : ℕ) : ℕ∞) ↔
          failedReadings t path < ((more + 1 : ℕ) : ℕ∞) := by
        rw [hn, Nat.cast_succ (more + 1)]
        exact ENat.add_lt_add_iff_right (by simp)
      rw [hlt, ← hv]
      exact ⟨r, ⟨u, (runOn_bind_of_ok hattempt).trans hu, huv.trans hv, hf.trans huf⟩, hok, hfails⟩

theorem attempts_pos (policy : StatPolicy) (retries : Int) : 0 < attempts policy retries := by
  cases policy with
  | skip => exact Nat.one_pos
  | retry =>
    simp only [attempts]
    omega
  | assumeFile => exact Nat.one_pos

/-- An entry that the walk goes into. -/
def Enters (s : Workspace) (policy : StatPolicy) (retries : Int) (path : Path) : Prop :=
  Classified s policy retries path ∧ s.volume.isFolder path = true

/-- An entry that the walk returns: no folder, or taken for a file. -/
def Leaf (s : Workspace) (policy : StatPolicy) (retries : Int) (path : Path) : Prop :=
  (Classified s policy retries path ∧ s.volume.isFolder path = false) ∨
    policy = .assumeFile ∧ ¬ Classified s policy retries path

open Classical in
noncomputable def kind (s : Workspace) (policy : StatPolicy) (retries : Int) (path : Path) :
    Option Bool :=
  if Classified s policy retries path then some (s.volume.isFolder path)
  else if policy = .assumeFile then some false else none

theorem kind_eq_true {s : Workspace} {policy : StatPolicy} {retries : Int} {path : Path} :
    kind s policy retries path = some true ↔ Enters s policy retries path := by
  unfold kind Enters
  split
  · next hc => simp [hc]
  · next hc =>
    split
    · simp [hc]
    · simp [hc]

theorem kind_eq_false {s : Workspace} {policy : StatPolicy} {retries : Int} {path : Path} :
    kind s policy retries path = some false ↔ Leaf s policy retries path := by
  unfold kind Leaf
  split
  · next hc => simp [hc]
  · next hc =>
    split
    · next hp => exact ⟨fun _ => Or.inr ⟨hp, hc⟩, fun _ => rfl⟩
    · next hp => simp [hc, hp]

variable [Alphabet]

theorem looks_classify (policy : StatPolicy) (retries : Int) (path : Path) (s : Workspace) :
    Looks (fun o p => o = .stat ∧ p = path) (classify policy retries path) s
      (.ok (kind s policy retries path)) := by
  obtain ⟨r, hlooks, hok, hfails⟩ := looks_statRetrying path (attempts policy retries - 1) s
  rw [Nat.sub_add_cancel (attempts_pos policy retries)] at hok hfails
  unfold classify
  refine hlooks.bind (fun _ _ h => h) fun t _ _ => ?_
  by_cases hc : Classified s policy retries path
  · obtain ⟨entry, hstat, rfl⟩ := hok hc
    have hkind : kind s policy retries path = some (entry == .folder) := by
      rw [kind, if_pos hc, Volume.isFolder, hstat]
      cases entry <;> rfl
    rw [hkind]
    exact looks_pure _
  · obtain ⟨f, rfl⟩ := hfails hc
    have hlog (message : String) (kind : Option Bool) :
        Looks (fun o p => o = .stat ∧ p = path)
          (do Action.log Level.warning logger message; pure kind) t (.ok kind) :=
      (looks_log _ _ _).bind (fun _ _ h => h) fun _ _ _ => looks_pure _
    cases policy with
    | assumeFile =>
      rw [kind, if_neg hc, if_pos rfl]
      exact hlog _ _
    | skip =>
      rw [kind, if_neg hc, if_neg (by decide)]
      exact hlog _ _
    | retry =>
      rw [kind, if_neg hc, if_neg (by decide)]
      exact hlog _ _

/-- The paths of the entries of a folder. -/
def pathsIn (s : Workspace) (folder : Path) : Except Failure (List Path) :=
  match listing s folder with
  | .ok names => .ok (names.map (Path.join folder))
  | .error e => .error (.listing folder (some e.message))

theorem looks_entries (folder : Path) (s : Workspace) :
    Looks (fun o p => o = .list ∧ p = folder) (entries folder) s (pathsIn s folder) := by
  have hlist : Looks (fun o p => o = .list ∧ p = folder) (listFolder folder) s
      (match listing s folder with
        | .ok names => .ok names
        | .error e => .error (.os e)) := by
    have hguard := looks_guard (s := s) .list folder
    unfold listFolder listing
    cases hp : (planned .list folder s.faults).1 with
    | some e =>
      rw [hp] at hguard
      exact hguard.bind_error
    | none =>
      rw [hp] at hguard
      refine hguard.bind (fun _ _ h => h) fun t hv _ => ?_
      refine looks_get.bind (fun _ _ h => h) fun _ _ _ => ?_
      rw [hv]
      cases s.volume.list folder with
      | ok names => exact looks_pure _
      | error e => exact looks_throw _
  unfold entries pathsIn
  refine hlist.attempt.bind (fun _ _ h => h) fun t _ _ => ?_
  cases listing s folder with
  | ok names => exact looks_pure _
  | error e => exact looks_throw _

/-! ### Entries of a level -/

omit [Alphabet] in
theorem listing_congr {s t : Workspace} {folder : Path} (hv : t.volume = s.volume)
    (hf : concerning .list folder t.faults = concerning .list folder s.faults) :
    listing t folder = listing s folder := by
  rw [listing, listing, hv, planned_congr hf]

omit [Alphabet] in
theorem kind_congr {s t : Workspace} {policy : StatPolicy} {retries : Int} {path : Path}
    (hv : t.volume = s.volume)
    (hf : concerning .stat path t.faults = concerning .stat path s.faults) :
    kind t policy retries path = kind s policy retries path := by
  rw [kind, kind, Classified, Classified, failedReadings, failedReadings, failures, failures, hv,
    hf]

theorem flatMapM_pathsIn_congr {s t : Workspace} {folders : List Path}
    (h : ∀ folder ∈ folders, listing t folder = listing s folder) :
    folders.flatMapM (pathsIn t) = folders.flatMapM (pathsIn s) := by
  induction folders with
  | nil => rfl
  | cons folder folders ih =>
    obtain ⟨hfolder, hrest⟩ := List.forall_mem_cons.1 h
    rw [List.flatMapM_cons, List.flatMapM_cons, ih hrest, pathsIn, pathsIn, hfolder]

def namesIn (s : Workspace) (folder : Path) : List Text :=
  match listing s folder with
  | .ok names => names
  | .error _ => []

/-- Either every folder is listed, or the first one that cannot be is the error. -/
theorem flatMapM_pathsIn_cases (s : Workspace) (folders : List Path) :
    ((∀ folder ∈ folders, ∃ names, listing s folder = .ok names) ∧
      folders.flatMapM (pathsIn s) =
        .ok (folders.flatMap fun folder => (namesIn s folder).map (Path.join folder))) ∨
    ∃ folder ∈ folders, ∃ e, listing s folder = .error e ∧
      folders.flatMapM (pathsIn s) = .error (.listing folder (some e.message)) := by
  induction folders with
  | nil => exact Or.inl ⟨by simp, rfl⟩
  | cons folder folders ih =>
    rw [List.flatMapM_cons]
    cases hl : listing s folder with
    | error e =>
      refine Or.inr ⟨folder, List.mem_cons_self .., e, hl, ?_⟩
      rw [pathsIn, hl]
      rfl
    | ok names =>
      rw [pathsIn, hl, List.flatMap_cons, namesIn, hl]
      rcases ih with ⟨hall, hok⟩ | ⟨other, ho, e, he, herror⟩
      · rw [hok]
        exact Or.inl ⟨List.forall_mem_cons.2 ⟨⟨names, hl⟩, hall⟩, rfl⟩
      · rw [herror]
        exact Or.inr ⟨other, List.mem_cons_of_mem _ ho, e, he, rfl⟩

theorem looks_entriesEach {folders : List Path} (hn : folders.Nodup) (s : Workspace) :
    Looks (fun o p => o = .list ∧ p ∈ folders) (folders.flatMapM entries) s
      (folders.flatMapM (pathsIn s)) := by
  induction folders generalizing s with
  | nil => exact looks_pure _
  | cons folder folders ih =>
    obtain ⟨hnot, hrest⟩ := List.nodup_cons.1 hn
    have hfirst := looks_entries folder s
    have hkey : ∀ op path, op = FileOp.list ∧ path = folder →
        op = .list ∧ path ∈ folder :: folders :=
      fun op path hk => ⟨hk.1, hk.2 ▸ List.mem_cons_self ..⟩
    have hkeys : ∀ op path, op = FileOp.list ∧ path ∈ folders →
        op = .list ∧ path ∈ folder :: folders :=
      fun op path hk => ⟨hk.1, List.mem_cons_of_mem _ hk.2⟩
    rw [List.flatMapM_cons, List.flatMapM_cons]
    cases hp : pathsIn s folder with
    | error e =>
      rw [hp] at hfirst
      exact (hfirst.mono hkey).bind_error
    | ok paths =>
      rw [hp] at hfirst
      refine hfirst.bind hkey fun t hv hf => ?_
      have hlater := ih hrest t
      rw [flatMapM_pathsIn_congr fun other ho => listing_congr hv (hf _ _ fun hk =>
        hnot (hk.2 ▸ ho))] at hlater
      show Looks _ _ t (folders.flatMapM (pathsIn s) >>= fun rest => pure (paths ++ rest))
      cases hr : folders.flatMapM (pathsIn s) with
      | error e =>
        rw [hr] at hlater
        exact (hlater.mono hkeys).bind_error
      | ok rest =>
        rw [hr] at hlater
        exact hlater.bind hkeys fun _ _ _ => looks_pure _

theorem looks_classifyEach (policy : StatPolicy) (retries : Int) {paths : List Path}
    (hn : paths.Nodup) (s : Workspace) :
    Looks (fun o p => o = .stat ∧ p ∈ paths)
      (paths.mapM fun path => do
        let isFolder ← classify policy retries path
        pure (path, isFolder)) s
      (.ok (paths.map fun path => (path, kind s policy retries path))) := by
  induction paths generalizing s with
  | nil => exact looks_pure _
  | cons path paths ih =>
    obtain ⟨hnot, hrest⟩ := List.nodup_cons.1 hn
    have hfirst : Looks (fun o p => o = .stat ∧ p = path)
        (do let isFolder ← classify policy retries path
            pure (path, isFolder)) s (.ok (path, kind s policy retries path)) :=
      (looks_classify policy retries path s).bind (fun _ _ h => h) fun _ _ _ => looks_pure _
    rw [List.mapM_cons]
    refine hfirst.bind (fun op p hk => ⟨hk.1, hk.2 ▸ List.mem_cons_self ..⟩) fun t hv hf => ?_
    refine (ih hrest t).bind (fun op p hk => ⟨hk.1, List.mem_cons_of_mem _ hk.2⟩) fun u _ _ => ?_
    have hkinds : (paths.map fun other => (other, kind t policy retries other)) =
        paths.map fun other => (other, kind s policy retries other) :=
      List.map_congr_left fun other ho => by
        rw [kind_congr hv (hf _ _ fun hk => hnot (hk.2 ▸ ho))]
    rw [hkinds]
    exact looks_pure _

end Inlay.Walk
