import Inlay.Command.Compile
import Inlay.Proofs.Settings.Checked
import Inlay.Proofs.Volume.Ways
import Inlay.Proofs.Workspace.Run

/-!
# What a walk returns

On a tree without faults a walk returns every file below its root exactly once
(`exists_runOn_walkFiles`). The levels of the walk are those of a pure search over names, which
never runs out of levels: a way to an entry is no longer than the list of entries.
-/

namespace Inlay

variable [Host]

open Inlay.Action

namespace Volume

variable {v : Volume}

/-! ### The search over names -/

def childrenOf (v : Volume) (place : Place) (ways : List (List Text)) : List (List Text) :=
  ways.flatMap fun way => (v.names (place ++ way)).map fun name => way ++ [name]

def entersFolder (v : Volume) (place : Place) (way : List Text) : Bool :=
  v.get? (place ++ way) == some .folder

/-- The ways to the files below some ways, by levels. -/
def waysBelow (v : Volume) (place : Place) : (levels : Nat) → List (List Text) → List (List Text)
  | _, [] => []
  | 0, _ :: _ => []
  | levels + 1, way :: more =>
    let children := v.childrenOf place (way :: more)
    children.filter (!v.entersFolder place ·) ++
      v.waysBelow place levels (children.filter (v.entersFolder place))

theorem Tree.mem_childrenOf (h : v.Tree) {place : Place} {ways : List (List Text)}
    {way : List Text} :
    way ∈ v.childrenOf place ways ↔
      ∃ lead ∈ ways, ∃ name entry, way = lead ++ [name] ∧ v.get? (place ++ way) = some entry := by
  simp only [childrenOf, List.mem_flatMap, List.mem_map, h.mem_names_iff]
  constructor
  · rintro ⟨lead, hl, name, ⟨entry, he⟩, rfl⟩
    exact ⟨lead, hl, name, entry, rfl, by rw [← List.append_assoc, he]⟩
  · rintro ⟨lead, hl, name, entry, rfl, he⟩
    exact ⟨lead, hl, name, ⟨entry, by rw [List.append_assoc, he]⟩, rfl⟩

theorem Tree.file_of_not_entersFolder (h : v.Tree) {place : Place} {way : List Text}
    {entry : Entry} (he : v.get? (place ++ way) = some entry)
    (hf : v.entersFolder place way = false) :
    ∃ content, v.get? (place ++ way) = some (.file content) := by
  cases entry with
  | file content => exact ⟨content, he⟩
  | folder => simp [entersFolder, he] at hf
  | link target => exact absurd he h.not_link

theorem Tree.mem_waysBelow (h : v.Tree) {place : Place} {levels : Nat} {ways : List (List Text)}
    {way : List Text} :
    way ∈ v.waysBelow place levels ways ↔
      ∃ lead ∈ ways, ∃ rest, rest ≠ [] ∧ rest.length ≤ levels ∧ way = lead ++ rest ∧
        ∃ content, v.get? (place ++ way) = some (.file content) := by
  induction levels generalizing ways with
  | zero =>
    have hn : v.waysBelow place 0 ways = [] := by cases ways <;> rfl
    rw [hn]
    constructor
    · intro hm
      simp at hm
    · rintro ⟨_, _, rest, hne, hlen, _⟩
      exact absurd (List.eq_nil_of_length_eq_zero (by omega)) hne
  | succ levels ih =>
    cases ways with
    | nil => simp [waysBelow]
    | cons first more =>
      simp only [waysBelow, List.mem_append, List.mem_filter, ih, h.mem_childrenOf]
      constructor
      · rintro (⟨⟨lead, hl, name, entry, rfl, he⟩, hf⟩ | ⟨_, ⟨⟨lead, hl, name, _, rfl, _⟩, _⟩,
          rest, _, hlen, rfl, hc⟩)
        · have hc := h.file_of_not_entersFolder he (by simpa using hf)
          exact ⟨lead, hl, [name], by simp, by simp, rfl, hc⟩
        · refine ⟨lead, hl, name :: rest, by simp, ?_, by simp, hc⟩
          rw [List.length_cons]
          omega
      · rintro ⟨lead, hl, rest, hne, hlen, rfl, content, hc⟩
        cases rest with
        | nil => exact absurd rfl hne
        | cons name rest =>
          -- The way ends on this level, or goes on through a folder of it.
          by_cases hr : rest = []
          · subst hr
            refine Or.inl ⟨⟨lead, hl, name, _, rfl, hc⟩, ?_⟩
            simp [entersFolder, hc]
          · have hsplit : place ++ (lead ++ name :: rest) = place ++ (lead ++ [name]) ++ rest := by
              simp
            have hf := h.folder_of_below (hsplit ▸ hc) hr
            refine Or.inr ⟨lead ++ [name], ⟨⟨lead, hl, name, _, rfl, hf⟩, ?_⟩, rest, hr, ?_,
              by simp, content, hc⟩
            · simp [entersFolder, hf]
            · rw [List.length_cons] at hlen
              omega

theorem Tree.nodup_childrenOf (h : v.Tree) (place : Place) {ways : List (List Text)}
    (hn : ways.Nodup) : (v.childrenOf place ways).Nodup := by
  unfold childrenOf
  induction ways with
  | nil => simp
  | cons way ways ih =>
    obtain ⟨hw, hrest⟩ := List.nodup_cons.1 hn
    rw [List.flatMap_cons, List.nodup_append]
    refine ⟨?_, ih hrest, fun a ha b hb hab => ?_⟩
    · refine List.Nodup.map (fun x y hxy => ?_) (h.nodup_names _)
      simpa using hxy
    · obtain ⟨x, _, rfl⟩ := List.mem_map.1 ha
      obtain ⟨way', hw', hb⟩ := List.mem_flatMap.1 hb
      obtain ⟨y, _, rfl⟩ := List.mem_map.1 hb
      have he := (List.append_inj' hab rfl).1
      exact hw (he ▸ hw')

/-- Ways of one length: those found on a level are shorter than those found after it. -/
theorem Tree.nodup_waysBelow (h : v.Tree) (place : Place) {levels length : Nat}
    {ways : List (List Text)} (hn : ways.Nodup) (hl : ∀ way ∈ ways, way.length = length) :
    (v.waysBelow place levels ways).Nodup := by
  induction levels generalizing ways length with
  | zero =>
    have hz : v.waysBelow place 0 ways = [] := by cases ways <;> rfl
    rw [hz]
    exact List.nodup_nil
  | succ levels ih =>
    cases ways with
    | nil => exact List.nodup_nil
    | cons first more =>
      have hc := h.nodup_childrenOf place hn
      have hlen : ∀ way ∈ v.childrenOf place (first :: more), way.length = length + 1 := by
        intro way hw
        obtain ⟨lead, hlead, name, _, rfl, _⟩ := h.mem_childrenOf.1 hw
        simp [hl lead hlead]
      simp only [waysBelow, List.nodup_append]
      refine ⟨hc.filter _, ih (hc.filter _) fun way hw => hlen way (List.mem_filter.1 hw).1, ?_⟩
      intro a ha b hb hab
      obtain ⟨lead, hlead, rest, hne, _, rfl, _⟩ := h.mem_waysBelow.1 hb
      have h₁ := hlen a (List.mem_filter.1 ha).1
      have h₂ := hlen lead (List.mem_filter.1 hlead).1
      rw [hab, List.length_append, h₂] at h₁
      exact hne (List.eq_nil_of_length_eq_zero (by omega))

end Volume

namespace Walk

variable {s : Workspace}

/-! ### The walk -/

omit [Host] in
theorem filterMap_entersFolder (v : Volume) (root : Path) (place : Place)
    (ways : List (List Text)) (kind : Bool) :
    (ways.map fun way => (Path.descend root way, some (v.entersFolder place way))).filterMap
        (fun (path, isFolder) => if isFolder = some kind then some path else none) =
      (ways.filter fun way => v.entersFolder place way == kind).map (Path.descend root) := by
  rw [List.filterMap_map, ← List.filterMap_eq_map, List.filterMap_filter]
  simp

omit [Host] in
theorem runOn_statEntry (hs : s.faults = []) {path : Path} {entry : Entry}
    (he : s.volume.stat path = .ok entry) : (statEntry path).runOn s = (.ok entry, s) := by
  unfold statEntry
  rw [runOn_bind_of_ok (runOn_guard_of_nil hs .stat path), runOn_bind_of_ok (runOn_get s), he]
  rfl

omit [Host] in
theorem runOn_statRetrying (hs : s.faults = []) {path : Path} {entry : Entry}
    (he : s.volume.stat path = .ok entry) (more : Nat) :
    (statRetrying path more).runOn s = (.ok (.ok entry), s) := by
  have ha : (attempt (statEntry path)).runOn s = (.ok (.ok entry), s) := by
    rw [runOn_attempt, runOn_statEntry hs he]
  cases more with
  | zero => exact ha
  | succ more =>
    unfold statRetrying
    rw [runOn_bind_of_ok ha]
    rfl

theorem runOn_classify (hs : s.faults = []) {path : Path} {entry : Entry}
    (he : s.volume.stat path = .ok entry) (policy : StatPolicy) (retries : Int) :
    (classify policy retries path).runOn s = (.ok (some (entry == .folder)), s) := by
  unfold classify
  rw [runOn_bind_of_ok (runOn_statRetrying hs he _)]
  rfl

variable (h : s.volume.Tree) (hs : s.faults = [])
include h hs

theorem runOn_entries {folder : Path} {place : Place} (hl : s.volume.Leads folder place)
    (hp : s.volume.get? place = some .folder) :
    (entries folder).runOn s = (.ok ((s.volume.names place).map (Path.join folder)), s) := by
  have hlist : (listFolder folder).runOn s = (.ok (s.volume.names place), s) := by
    unfold listFolder
    rw [runOn_bind_of_ok (runOn_guard_of_nil hs .list folder), runOn_bind_of_ok (runOn_get s),
      h.list_of_leads hl hp]
    rfl
  unfold entries
  rw [runOn_bind_of_ok (by rw [runOn_attempt, hlist])]
  rfl

variable {root : Path} {place : Place} (hl : s.volume.Leads root place)
include hl

theorem runOn_children {ways : List (List Text)}
    (hw : ∀ way ∈ ways, s.volume.get? (place ++ way) = some .folder) :
    ((ways.map (Path.descend root)).flatMapM entries).runOn s =
      (.ok ((s.volume.childrenOf place ways).map (Path.descend root)), s) := by
  induction ways with
  | nil => rfl
  | cons way ways ih =>
    have hp := hw way (List.mem_cons_self ..)
    have hrest := ih fun w hm => hw w (List.mem_cons_of_mem _ hm)
    have hfirst := runOn_entries h hs (h.leads_descend hl hp) hp
    rw [List.map_cons, List.flatMapM_cons, runOn_bind_of_ok hfirst, runOn_bind_of_ok hrest]
    have hj : Path.join (Path.descend root way) = fun name => Path.descend root (way ++ [name]) :=
      funext fun name => (Path.descend_append root way [name]).symm
    simp only [runOn_pure, Volume.childrenOf, List.flatMap_cons, List.map_append, List.map_map,
      Function.comp_def, hj]

theorem runOn_classifyEach (policy : StatPolicy) (retries : Int) (ways : List (List Text))
    (hw : ∀ way ∈ ways, ∃ lead name entry, way = lead ++ [name] ∧
      s.volume.get? (place ++ way) = some entry) :
    ((ways.map (Path.descend root)).mapM fun path => do
        let isFolder ← classify policy retries path
        pure (path, isFolder)).runOn s =
      (.ok (ways.map fun way =>
        (Path.descend root way, some (s.volume.entersFolder place way))), s) := by
  induction ways with
  | nil => rfl
  | cons way ways ih =>
    obtain ⟨lead, name, entry, rfl, he⟩ := hw way (List.mem_cons_self ..)
    have hrest := ih fun w hm => hw w (List.mem_cons_of_mem _ hm)
    have hc := runOn_classify hs (h.stat_descend hl he) policy retries
    have hfirst : (do
        let isFolder ← classify policy retries (Path.descend root (lead ++ [name]))
        pure (Path.descend root (lead ++ [name]), isFolder) : Action _).runOn s =
        (.ok (Path.descend root (lead ++ [name]),
          some (s.volume.entersFolder place (lead ++ [name]))), s) := by
      rw [runOn_bind_of_ok hc, Volume.entersFolder, he]
      rfl
    rw [List.map_cons, List.mapM_cons, runOn_bind_of_ok hfirst, runOn_bind_of_ok hrest]
    rfl

theorem runOn_below (policy : StatPolicy) (retries : Int) (levels : Nat) (ways : List (List Text))
    (hw : ∀ way ∈ ways, s.volume.get? (place ++ way) = some .folder) :
    (below policy retries levels (ways.map (Path.descend root))).runOn s =
      (.ok ((s.volume.waysBelow place levels ways).map (Path.descend root)), s) := by
  induction levels generalizing ways with
  | zero => cases ways <;> rfl
  | succ levels ih =>
    cases ways with
    | nil => rfl
    | cons first more =>
      have hchildren := runOn_children h hs hl hw
      have hclass := runOn_classifyEach h hs hl policy retries
        (s.volume.childrenOf place (first :: more)) fun way hm => by
          obtain ⟨lead, _, name, entry, rfl, he⟩ := h.mem_childrenOf.1 hm
          exact ⟨lead, name, entry, rfl, he⟩
      have hdeep := ih ((s.volume.childrenOf place (first :: more)).filter
        (s.volume.entersFolder place)) fun way hm => by
          simpa [Volume.entersFolder] using (List.mem_filter.1 hm).2
      rw [List.map_cons] at hchildren ⊢
      unfold below
      rw [runOn_bind_of_ok hchildren, runOn_bind_of_ok hclass]
      simp only [filterMap_entersFolder, beq_true, beq_false]
      rw [runOn_bind_of_ok hdeep]
      simp only [runOn_pure, Volume.waysBelow, List.map_append]

theorem exists_runOn_files (hp : s.volume.get? place = some .folder) (policy : StatPolicy)
    (retries : Int) :
    ∃ ways : List (List Text),
      (files policy retries root).runOn s = (.ok (ways.map (Path.descend root)), s) ∧
      ways.Nodup ∧
      ∀ way, way ∈ ways ↔ ∃ content, s.volume.get? (place ++ way) = some (.file content) := by
  have hw : ∀ way ∈ [([] : List Text)], s.volume.get? (place ++ way) = some .folder := by
    simpa using hp
  refine ⟨s.volume.waysBelow place (depthBound s.volume + 1) [[]], ?_, ?_, fun way => ?_⟩
  · unfold files
    rw [runOn_bind_of_ok (runOn_get s)]
    exact runOn_below h hs hl policy retries _ _ hw
  · have hlen : ∀ way ∈ [([] : List Text)], way.length = 0 := by simp
    exact h.nodup_waysBelow place (by simp) hlen
  · rw [h.mem_waysBelow]
    constructor
    · rintro ⟨_, _, _, _, _, _, hc⟩
      exact hc
    · rintro ⟨content, hc⟩
      have hne : way ≠ [] := by
        rintro rfl
        rw [List.append_nil, hp] at hc
        simp at hc
      have hlen := h.sound.length_le hc
      rw [List.length_append] at hlen
      have hb : s.volume.entries.length ≤ depthBound s.volume := by
        unfold depthBound
        have hm := Nat.mul_le_mul_right (s.volume.entries.length + 1)
          (show 1 ≤ Volume.linkLimit + 1 by decide)
        omega
      exact ⟨[], by simp, way, hne, by omega, by simp, content, hc⟩

/-- On a tree without faults a walk returns exactly the files below its root, each once. -/
theorem exists_runOn_walkFiles {profile : Profile} (hc : profile.Checked)
    (hp : s.volume.get? place = some .folder) :
    ∃ ways : List (List Text),
      (Compile.walkFiles profile root).runOn s = (.ok (ways.map (Path.descend root)), s) ∧
      ways.Nodup ∧
      (∀ way, way ∈ ways ↔ ∃ content, s.volume.get? (place ++ way) = some (.file content)) ∧
      ∀ way ∈ ways, way ≠ [] ∧ ∀ n ∈ way, Path.IsName n := by
  obtain ⟨name, hn, hpolicy⟩ := hc.statPolicy
  obtain ⟨retries, hr, _⟩ := hc.statRetries
  obtain ⟨policy, hpolicy⟩ := Option.isSome_iff_exists.1 hpolicy
  have hpol : (Walk.policy name).runOn s = (.ok policy, s) := by
    rw [Walk.policy, hpolicy]
    rfl
  unfold Compile.walkFiles
  rw [runOn_bind_of_ok (runOn_need_some hn s), runOn_bind_of_ok hpol,
    runOn_bind_of_ok (runOn_need_some hr s)]
  obtain ⟨ways, hrun, hnodup, hways⟩ := exists_runOn_files h hs hl hp policy retries
  refine ⟨ways, hrun, hnodup, hways, fun way hm => ?_⟩
  obtain ⟨content, he⟩ := (hways way).1 hm
  refine ⟨?_, h.isName_below he⟩
  rintro rfl
  rw [List.append_nil, hp] at he
  simp at he

end Walk

end Inlay
