import Inlay.Proofs.Walk.Depth
import Inlay.Proofs.Walk.Reached
import Mathlib

/-!
# The leaves of a walk

A walk goes from level to level: below the folders that it has reached it lists the entries, finds
out their states, returns the leaves and goes on below the folders (`FoundBelow.level`). Whatever
operations fail, it ends with all leaves, or with a folder that it has reached and cannot list
(`below_gives`).
-/

namespace Inlay.Walk

open Inlay.Action

/-! ### Ways that a walk takes -/

section
variable (s : Workspace) (policy : StatPolicy) (retries : Int) (root : Path)

/-- Every name on the way is listed in the folder before it, and that of a folder. -/
def Reached (way : List Text) : Prop :=
  ∀ lead name, lead ++ [name] <+: way → name ∈ namesIn s (Path.descend root lead) ∧
    Enters s policy retries (Path.descend root (lead ++ [name]))

/-- A leaf in a folder that is reached. -/
def Found (way : List Text) : Prop :=
  ∃ lead name, way = lead ++ [name] ∧ Reached s policy retries root lead ∧
    name ∈ namesIn s (Path.descend root lead) ∧ Leaf s policy retries (Path.descend root way)

def childrenOf (ways : List (List Text)) : List (List Text) :=
  ways.flatMap fun way => (namesIn s (Path.descend root way)).map fun name => way ++ [name]

noncomputable def foldersOf (ways : List (List Text)) : List (List Text) :=
  (childrenOf s root ways).filter fun way =>
    kind s policy retries (Path.descend root way) = some true

noncomputable def leavesOf (ways : List (List Text)) : List (List Text) :=
  (childrenOf s root ways).filter fun way =>
    kind s policy retries (Path.descend root way) = some false

/-- All leaves below some ways are found, and every folder below them can be listed. -/
structure FoundBelow (ways found : List (List Text)) : Prop where
  nodup : found.Nodup
  mem : ∀ way, way ∈ found ↔ Found s policy retries root way ∧ ∃ lead ∈ ways, lead <+: way
  listed : ∀ way, Reached s policy retries root way → (∃ lead ∈ ways, lead <+: way) →
    ∃ names, listing s (Path.descend root way) = .ok names

end

variable {s : Workspace} {policy : StatPolicy} {retries : Int} {root : Path}

theorem list_of_listing {folder : Path} {names : List Text} (h : listing s folder = .ok names) :
    s.volume.list folder = .ok names := by
  unfold listing at h
  split at h
  · simp at h
  · split at h
    · next hl =>
      obtain rfl := Except.ok.inj h
      exact hl
    · simp at h

theorem list_of_mem_namesIn {folder : Path} {name : Text} (h : name ∈ namesIn s folder) :
    s.volume.list folder = .ok (namesIn s folder) := by
  cases hl : listing s folder with
  | ok names =>
    rw [namesIn, hl]
    exact list_of_listing hl
  | error e => simp [namesIn, hl] at h

theorem isName_of_mem_namesIn [Alphabet] (hv : s.volume.Sound) {folder : Path} {name : Text}
    (h : name ∈ namesIn s folder) : Path.IsName name :=
  (Volume.named_of_mem_list hv.named (list_of_mem_namesIn h) name h).1

theorem nodup_namesIn [Alphabet] (hv : s.volume.Sound) (folder : Path) :
    (namesIn s folder).Nodup := by
  rcases List.eq_nil_or_concat (namesIn s folder) with hnil | ⟨lead, last, hl⟩
  · rw [hnil]
    exact List.nodup_nil
  · have hlast : last ∈ namesIn s folder := by simp [hl]
    exact hv.nodup_list (list_of_mem_namesIn hlast)

theorem reached_nil : Reached s policy retries root [] := fun lead name h => by
  simp at h

theorem Reached.concat {lead : List Text} {name : Text} (h : Reached s policy retries root lead)
    (hn : name ∈ namesIn s (Path.descend root lead))
    (he : Enters s policy retries (Path.descend root (lead ++ [name]))) :
    Reached s policy retries root (lead ++ [name]) := by
  intro l n hp
  rcases List.prefix_concat_iff.1 hp with heq | hp
  · obtain ⟨rfl, hnn⟩ := List.append_inj' heq rfl
    obtain rfl : n = name := by simpa using hnn
    exact ⟨hn, he⟩
  · exact h l n hp

theorem Reached.isName [Alphabet] (hv : s.volume.Sound) {way : List Text}
    (h : Reached s policy retries root way) : ∀ n ∈ way, Path.IsName n := by
  intro n hn
  obtain ⟨lead, rest, rfl⟩ := List.append_of_mem hn
  exact isName_of_mem_namesIn hv (h lead n ⟨rest, by simp⟩).1

theorem mem_childrenOf {ways : List (List Text)} {way : List Text} :
    way ∈ childrenOf s root ways ↔
      ∃ lead ∈ ways, ∃ name ∈ namesIn s (Path.descend root lead), way = lead ++ [name] := by
  simp only [childrenOf, List.mem_flatMap, List.mem_map]
  constructor
  · rintro ⟨lead, hl, name, hn, rfl⟩
    exact ⟨lead, hl, name, hn, rfl⟩
  · rintro ⟨lead, hl, name, hn, rfl⟩
    exact ⟨lead, hl, name, hn, rfl⟩

theorem length_of_mem_childrenOf {ways : List (List Text)} {way : List Text} {depth : Nat}
    (hlen : ∀ way ∈ ways, way.length = depth) (hw : way ∈ childrenOf s root ways) :
    way.length = depth + 1 := by
  obtain ⟨lead, hl, name, _, rfl⟩ := mem_childrenOf.1 hw
  rw [List.length_append, hlen lead hl, List.length_singleton]

theorem mem_foldersOf {ways : List (List Text)} {way : List Text} :
    way ∈ foldersOf s policy retries root ways ↔
      way ∈ childrenOf s root ways ∧ Enters s policy retries (Path.descend root way) := by
  rw [foldersOf, List.mem_filter, decide_eq_true_eq, kind_eq_true]

theorem mem_leavesOf {ways : List (List Text)} {way : List Text} :
    way ∈ leavesOf s policy retries root ways ↔
      way ∈ childrenOf s root ways ∧ Leaf s policy retries (Path.descend root way) := by
  rw [leavesOf, List.mem_filter, decide_eq_true_eq, kind_eq_false]

theorem not_leaf_of_enters {path : Path} (h : Enters s policy retries path) :
    ¬ Leaf s policy retries path := by
  rintro (hleaf | hleaf)
  · simp [h.2] at hleaf
  · exact hleaf.2 h.1

theorem nodup_childrenOf [Alphabet] (hv : s.volume.Sound) {ways : List (List Text)}
    (hn : ways.Nodup) :
    (childrenOf s root ways).Nodup := by
  unfold childrenOf
  induction ways with
  | nil => simp
  | cons way ways ih =>
    obtain ⟨hw, hrest⟩ := List.nodup_cons.1 hn
    rw [List.flatMap_cons, List.nodup_append]
    refine ⟨?_, ih hrest, fun a ha b hb hab => ?_⟩
    · refine List.Nodup.map (fun x y hxy => ?_) (nodup_namesIn hv _)
      simpa using hxy
    · obtain ⟨x, _, rfl⟩ := List.mem_map.1 ha
      obtain ⟨way', hw', hb⟩ := List.mem_flatMap.1 hb
      obtain ⟨y, _, rfl⟩ := List.mem_map.1 hb
      have he := (List.append_inj' hab rfl).1
      exact hw (he ▸ hw')

/-! ### One level -/

/-- A way that goes on below one of some ways enters one of their folders. -/
theorem Reached.mem_foldersOf {ways : List (List Text)} {lead rest : List Text} {name : Text}
    (hl : lead ∈ ways) (hr : Reached s policy retries root (lead ++ name :: rest)) :
    lead ++ [name] ∈ foldersOf s policy retries root ways := by
  obtain ⟨hname, henters⟩ := hr lead name ⟨rest, by simp⟩
  exact Walk.mem_foldersOf.2 ⟨mem_childrenOf.2 ⟨lead, hl, name, hname, rfl⟩, henters⟩

/-- A leaf below some ways stands among their entries, or below an entry that is entered. -/
theorem Found.cases_level {ways : List (List Text)} {lead way : List Text}
    (hreach : ∀ way ∈ ways, Reached s policy retries root way) (hl : lead ∈ ways)
    (hp : lead <+: way) (h : Found s policy retries root way) :
    way ∈ leavesOf s policy retries root ways ∨
      ∃ lead ∈ foldersOf s policy retries root ways, lead <+: way := by
  obtain ⟨last, name, rfl, hlast, hname, hleaf⟩ := h
  rcases List.prefix_concat_iff.1 hp with rfl | ⟨rest, rfl⟩
  · have henters := (hreach _ hl last name (List.prefix_refl _)).2
    exact absurd hleaf (not_leaf_of_enters henters)
  · cases rest with
    | nil =>
      rw [List.append_nil] at hname hleaf ⊢
      exact Or.inl (mem_leavesOf.2 ⟨mem_childrenOf.2 ⟨lead, hl, name, hname, rfl⟩, hleaf⟩)
    | cons m rest =>
      exact Or.inr ⟨lead ++ [m], hlast.mem_foldersOf hl, ⟨rest ++ [name], by simp⟩⟩

theorem FoundBelow.level [Alphabet] (hv : s.volume.Sound) {depth : Nat}
    {ways deeper : List (List Text)}
    (hlen : ∀ way ∈ ways, way.length = depth) (hn : ways.Nodup)
    (hreach : ∀ way ∈ ways, Reached s policy retries root way)
    (hall : ∀ way ∈ ways, ∃ names, listing s (Path.descend root way) = .ok names)
    (hd : FoundBelow s policy retries root (foldersOf s policy retries root ways) deeper) :
    FoundBelow s policy retries root ways (leavesOf s policy retries root ways ++ deeper) := by
  refine ⟨?_, fun way => ?_, ?_⟩
  · refine List.nodup_append.2 ⟨(nodup_childrenOf hv hn).filter _, hd.nodup, ?_⟩
    rintro a ha b hb rfl
    obtain ⟨_, lead, hl, hp⟩ := (hd.mem a).1 hb
    obtain ⟨ha, hleaf⟩ := mem_leavesOf.1 ha
    obtain ⟨hl, henters⟩ := mem_foldersOf.1 hl
    -- Both are of one depth, so the leaf would be the folder itself.
    obtain rfl : lead = a := hp.eq_of_length
      ((length_of_mem_childrenOf hlen hl).trans (length_of_mem_childrenOf hlen ha).symm)
    exact not_leaf_of_enters henters hleaf
  · rw [List.mem_append, hd.mem]
    constructor
    · rintro (hw | ⟨hfound, lead, hl, hp⟩)
      · obtain ⟨hw, hleaf⟩ := mem_leavesOf.1 hw
        obtain ⟨lead, hl, name, hname, rfl⟩ := mem_childrenOf.1 hw
        exact ⟨⟨lead, name, rfl, hreach lead hl, hname, hleaf⟩, lead, hl, List.prefix_append ..⟩
      · obtain ⟨first, hf, name, _, rfl⟩ := mem_childrenOf.1 (mem_foldersOf.1 hl).1
        exact ⟨hfound, first, hf, (List.prefix_append ..).trans hp⟩
    · rintro ⟨hfound, lead, hl, hp⟩
      exact (hfound.cases_level hreach hl hp).imp_right fun hbelow => ⟨hfound, hbelow⟩
  · rintro way hr ⟨lead, hl, rest, rfl⟩
    cases rest with
    | nil =>
      rw [List.append_nil]
      exact hall lead hl
    | cons m rest =>
      exact hd.listed _ hr ⟨lead ++ [m], hr.mem_foldersOf hl, ⟨rest, by simp⟩⟩

/-! ### The whole walk -/

/-- The faults of entries that the walk has not come to yet are as in the beginning. -/
structure Fresh (s : Workspace) (root : Path) (depth : Nat) (t : Workspace) : Prop where
  volume : t.volume = s.volume
  lists : ∀ way, (∀ n ∈ way, Path.IsName n) → depth ≤ way.length →
    concerning .list (Path.descend root way) t.faults =
      concerning .list (Path.descend root way) s.faults
  states : ∀ way, (∀ n ∈ way, Path.IsName n) → depth < way.length →
    concerning .stat (Path.descend root way) t.faults =
      concerning .stat (Path.descend root way) s.faults

theorem nodup_descend (root : Path) {ways : List (List Text)} (hn : ways.Nodup)
    (hnames : ∀ way ∈ ways, ∀ n ∈ way, Path.IsName n) :
    (ways.map (Path.descend root)).Nodup :=
  List.Nodup.map_on (fun _ hx _ hy hxy => Path.descend_injective root
    (Path.isPiece_of_isName (hnames _ hx)) (Path.isPiece_of_isName (hnames _ hy)) hxy) hn

theorem Found.isName [Alphabet] (hv : s.volume.Sound) {way : List Text}
    (h : Found s policy retries root way) : ∀ n ∈ way, Path.IsName n := by
  obtain ⟨lead, name, rfl, hr, hname, _⟩ := h
  exact List.forall_mem_append.2 ⟨hr.isName hv,
    List.forall_mem_singleton.2 (isName_of_mem_namesIn hv hname)⟩

theorem FoundBelow.nodup_descend [Alphabet] (hv : s.volume.Sound) {ways found : List (List Text)}
    (h : FoundBelow s policy retries root ways found) : (found.map (Path.descend root)).Nodup :=
  Walk.nodup_descend root h.nodup fun way hw => ((h.mem way).1 hw).1.isName hv

theorem not_mem_descend {root : Path} {ways : List (List Text)} {way : List Text} {depth : Nat}
    (hnames : ∀ w ∈ ways, ∀ n ∈ w, Path.IsName n) (hlen : ∀ w ∈ ways, w.length = depth)
    (hway : ∀ n ∈ way, Path.IsName n) (hd : depth < way.length) :
    Path.descend root way ∉ ways.map (Path.descend root) := by
  intro hm
  obtain ⟨w, hw, he⟩ := List.mem_map.1 hm
  have hsame := Path.descend_injective root (Path.isPiece_of_isName (hnames w hw))
    (Path.isPiece_of_isName hway) he
  have hl := hlen w hw
  rw [hsame] at hl
  omega

theorem map_childrenOf (s : Workspace) (root : Path) (ways : List (List Text)) :
    ((ways.map (Path.descend root)).flatMap fun folder =>
      (namesIn s folder).map (Path.join folder)) =
      (childrenOf s root ways).map (Path.descend root) := by
  induction ways with
  | nil => rfl
  | cons way ways ih =>
    have hj : Path.join (Path.descend root way) = fun name => Path.descend root (way ++ [name]) :=
      funext fun name => (Path.descend_append root way [name]).symm
    rw [List.map_cons, List.flatMap_cons, ih, childrenOf, childrenOf, List.flatMap_cons,
      List.map_append, List.map_map, hj]
    rfl

theorem filterMap_kind (s : Workspace) (policy : StatPolicy) (retries : Int) (root : Path)
    (ways : List (List Text)) (folder : Bool) :
    ((ways.map (Path.descend root)).map fun path => (path, kind s policy retries path)).filterMap
        (fun (path, isFolder) => if isFolder = some folder then some path else none) =
      (ways.filter fun way =>
        kind s policy retries (Path.descend root way) = some folder).map (Path.descend root) := by
  induction ways with
  | nil => rfl
  | cons way ways ih =>
    rw [List.map_cons, List.map_cons, List.filterMap_cons, List.filter_cons, ih]
    by_cases hk : kind s policy retries (Path.descend root way) = some folder
    · simp [hk]
    · simp [hk]

/-- A level lists the folders of one depth and reads the states of entries of the next one. -/
theorem Fresh.next {depth : Nat} {ways children : List (List Text)} {t t₁ t₂ : Workspace}
    (ht : Fresh s root depth t) (hnames : ∀ way ∈ ways, ∀ n ∈ way, Path.IsName n)
    (hlen : ∀ way ∈ ways, way.length = depth)
    (hchildren : ∀ way ∈ children, ∀ n ∈ way, Path.IsName n)
    (hdeep : ∀ way ∈ children, way.length = depth + 1) (hv₁ : t₁.volume = t.volume)
    (hf₁ : Spends (fun o p => o = .list ∧ p ∈ ways.map (Path.descend root)) t.faults t₁.faults)
    (hv₂ : t₂.volume = t₁.volume)
    (hf₂ : Spends (fun o p => o = .stat ∧ p ∈ children.map (Path.descend root)) t₁.faults
      t₂.faults) : Fresh s root (depth + 1) t₂ where
  volume := (hv₂.trans hv₁).trans ht.volume
  lists way hway hd := by
    have h₂ := hf₂ .list (Path.descend root way) fun hk => by simp at hk
    have h₁ := hf₁ .list (Path.descend root way) fun hk =>
      not_mem_descend hnames hlen hway (by omega) hk.2
    exact (h₂.trans h₁).trans (ht.lists way hway (by omega))
  states way hway hd := by
    have h₂ := hf₂ .stat (Path.descend root way) fun hk =>
      not_mem_descend hchildren hdeep hway hd hk.2
    have h₁ := hf₁ .stat (Path.descend root way) fun hk => by simp at hk
    exact (h₂.trans h₁).trans (ht.states way hway (by omega))

variable [Alphabet]

theorem looks_level {depth : Nat} {ways : List (List Text)}
    (hlen : ∀ way ∈ ways, way.length = depth) (hn : ways.Nodup)
    (hnames : ∀ way ∈ ways, ∀ n ∈ way, Path.IsName n) {t : Workspace} (ht : Fresh s root depth t) :
    Looks (fun o p => o = .list ∧ p ∈ ways.map (Path.descend root))
      ((ways.map (Path.descend root)).flatMapM entries) t
      ((ways.map (Path.descend root)).flatMapM (pathsIn s)) := by
  have hlist := looks_entriesEach (nodup_descend root hn hnames) t
  rwa [flatMapM_pathsIn_congr fun folder hf => ?_] at hlist
  obtain ⟨w, hw, rfl⟩ := List.mem_map.1 hf
  exact listing_congr ht.volume (ht.lists w (hnames w hw) (hlen w hw).ge)

theorem below_succ (policy : StatPolicy) (retries : Int) (levels : Nat) {folders : List Path}
    (hne : folders ≠ []) :
    below policy retries (levels + 1) folders = (do
      let paths ← folders.flatMapM entries
      let classified ← paths.mapM fun path => do
        let isFolder ← classify policy retries path
        pure (path, isFolder)
      let pick (kind : Bool) := classified.filterMap fun (path, isFolder) =>
        if isFolder = some kind then some path else none
      let deeper ← below policy retries levels (pick true)
      pure (pick false ++ deeper)) := by
  obtain ⟨folder, more, rfl⟩ := List.exists_cons_of_ne_nil hne
  rw [below]

variable (policy retries) in
/-- A level lists the entries of its folders and finds out their states, or ends at the first folder
that cannot be listed. -/
theorem level_gives (hv : s.volume.Sound) {depth : Nat} {ways : List (List Text)} (hne : ways ≠ [])
    (hlen : ∀ way ∈ ways, way.length = depth) (hn : ways.Nodup)
    (hnames : ∀ way ∈ ways, ∀ n ∈ way, Path.IsName n) :
    ((∀ way ∈ ways, ∃ names, listing s (Path.descend root way) = .ok names) ∧
      ∀ t, Fresh s root depth t → ∃ t', Fresh s root (depth + 1) t' ∧
        ∀ levels, (below policy retries (levels + 1) (ways.map (Path.descend root))).runOn t =
          (do
            let deeper ← below policy retries levels
              ((foldersOf s policy retries root ways).map (Path.descend root))
            pure ((leavesOf s policy retries root ways).map (Path.descend root) ++
              deeper)).runOn t') ∨
    ∃ way ∈ ways, ∃ e, listing s (Path.descend root way) = .error e ∧
      ∀ t, Fresh s root depth t → ∃ u, u.volume = s.volume ∧
        ∀ levels, (below policy retries (levels + 1) (ways.map (Path.descend root))).runOn t =
          (.error (.listing (Path.descend root way) (some e.message)), u) := by
  have hchildren : ∀ w ∈ childrenOf s root ways, ∀ n ∈ w, Path.IsName n := by
    intro w hw
    obtain ⟨lead, hl, name, hname, rfl⟩ := mem_childrenOf.1 hw
    exact List.forall_mem_append.2 ⟨hnames lead hl,
      List.forall_mem_singleton.2 (isName_of_mem_namesIn hv hname)⟩
  have hdeep : ∀ w ∈ childrenOf s root ways, w.length = depth + 1 := fun _ hw =>
    length_of_mem_childrenOf hlen hw
  have hfolders : ways.map (Path.descend root) ≠ [] := by simpa using hne
  rcases flatMapM_pathsIn_cases s (ways.map (Path.descend root)) with
    ⟨hall, hok⟩ | ⟨folder, hf, e, he, herror⟩
  · refine Or.inl ⟨fun way hw => hall _ (List.mem_map_of_mem hw), fun t ht => ?_⟩
    have hlist := looks_level hlen hn hnames ht
    rw [hok, map_childrenOf] at hlist
    obtain ⟨t₁, hrun₁, hv₁, hf₁⟩ := hlist
    obtain ⟨t₂, hrun₂, hv₂, hf₂⟩ := looks_classifyEach policy retries
      (nodup_descend root (nodup_childrenOf hv hn) hchildren) t₁
    have hkinds : (((childrenOf s root ways).map (Path.descend root)).map fun path =>
        (path, kind t₁ policy retries path)) =
        ((childrenOf s root ways).map (Path.descend root)).map fun path =>
          (path, kind s policy retries path) := by
      refine List.map_congr_left fun path hp => ?_
      obtain ⟨w, hw, rfl⟩ := List.mem_map.1 hp
      have h₁ := hf₁ .stat (Path.descend root w) fun hk => by simp at hk
      have h₀ := ht.states w (hchildren w hw) (by rw [hdeep w hw]; omega)
      rw [kind_congr (hv₁.trans ht.volume) (h₁.trans h₀)]
    rw [hkinds] at hrun₂
    refine ⟨t₂, ht.next hnames hlen hchildren hdeep hv₁ hf₁ hv₂ hf₂, fun levels => ?_⟩
    rw [below_succ policy retries levels hfolders, runOn_bind_of_ok hrun₁,
      runOn_bind_of_ok hrun₂]
    simp only [filterMap_kind, foldersOf, leavesOf]
  · obtain ⟨w, hw, rfl⟩ := List.mem_map.1 hf
    refine Or.inr ⟨w, hw, e, he, fun t ht => ?_⟩
    have hlist := looks_level hlen hn hnames ht
    rw [herror] at hlist
    obtain ⟨u, hrun, hvu, _⟩ := hlist
    refine ⟨u, hvu.trans ht.volume, fun levels => ?_⟩
    rw [below_succ policy retries levels hfolders]
    exact runOn_bind_of_error hrun

/-- The walk finds all leaves, or it ends at a folder that it has reached and cannot list. -/
theorem below_gives (hv : s.volume.Sound) {levels depth : Nat} {ways : List (List Text)}
    (hlen : ∀ way ∈ ways, way.length = depth) (hn : ways.Nodup)
    (hreach : ∀ way ∈ ways, Reached s policy retries root way)
    (hlevels : depthBound s.volume < depth + levels) :
    (∃ found, FoundBelow s policy retries root ways found ∧
      ∀ t, Fresh s root depth t → ∃ u, u.volume = s.volume ∧
        (below policy retries levels (ways.map (Path.descend root))).runOn t =
          (.ok (found.map (Path.descend root)), u)) ∨
    ∃ way e, Reached s policy retries root way ∧ listing s (Path.descend root way) = .error e ∧
      ∀ t, Fresh s root depth t → ∃ u, u.volume = s.volume ∧
        (below policy retries levels (ways.map (Path.descend root))).runOn t =
          (.error (.listing (Path.descend root way) (some e.message)), u) := by
  have hnone : FoundBelow s policy retries root [] [] := ⟨List.nodup_nil, by simp, by simp⟩
  induction levels generalizing depth ways with
  | zero =>
    cases ways with
    | nil => exact Or.inl ⟨[], hnone, fun t ht => ⟨t, ht.volume, rfl⟩⟩
    | cons way more =>
      -- The levels are not used up before the folders.
      have hdepth := hlen way (List.mem_cons_self ..)
      have hr := hreach way (List.mem_cons_self ..)
      rcases List.eq_nil_or_concat way with rfl | ⟨lead, name, rfl⟩
      · rw [List.length_nil] at hdepth
        omega
      · rw [List.concat_eq_append] at hr hdepth
        have hfolder := (hr lead name (List.prefix_refl _)).2.2
        have hbound := hv.length_le_depthBound (hr.isName hv) hfolder
        omega
  | succ levels ih =>
    by_cases hne : ways = []
    · subst hne
      exact Or.inl ⟨[], hnone, fun t ht => ⟨t, ht.volume, rfl⟩⟩
    · rcases level_gives policy retries hv hne hlen hn
        (fun way hw => (hreach way hw).isName hv) with
        ⟨hall, hlevel⟩ | ⟨way, hw, e, he, hlevel⟩
      · have hfolders : ∀ way ∈ foldersOf s policy retries root ways,
            way.length = depth + 1 ∧ Reached s policy retries root way := by
          intro way hw
          obtain ⟨hw, henters⟩ := mem_foldersOf.1 hw
          refine ⟨length_of_mem_childrenOf hlen hw, ?_⟩
          obtain ⟨lead, hl, name, hname, rfl⟩ := mem_childrenOf.1 hw
          exact (hreach lead hl).concat hname henters
        rcases ih (fun way hw => (hfolders way hw).1) ((nodup_childrenOf hv hn).filter _)
          (fun way hw => (hfolders way hw).2) (by omega) with
          ⟨deeper, hd, hdeep⟩ | ⟨way, e, hr, he, hdeep⟩
        · refine Or.inl ⟨_, FoundBelow.level hv hlen hn hreach hall hd, fun t ht => ?_⟩
          obtain ⟨t', ht', hrun⟩ := hlevel t ht
          obtain ⟨u, hu, hdeep⟩ := hdeep t' ht'
          refine ⟨u, hu, ?_⟩
          rw [hrun, runOn_bind_of_ok hdeep, List.map_append]
          rfl
        · refine Or.inr ⟨way, e, hr, he, fun t ht => ?_⟩
          obtain ⟨t', ht', hrun⟩ := hlevel t ht
          obtain ⟨u, hu, hdeep⟩ := hdeep t' ht'
          refine ⟨u, hu, ?_⟩
          rw [hrun, runOn_bind_of_error hdeep]
      · refine Or.inr ⟨way, e, hreach way hw, he, fun t ht => ?_⟩
        obtain ⟨u, hu, hrun⟩ := hlevel t ht
        exact ⟨u, hu, hrun levels⟩

omit [Alphabet] in
theorem Fresh.of_eq {t : Workspace} (hv : t.volume = s.volume) (hf : t.faults = s.faults)
    (depth : Nat) : Fresh s root depth t :=
  ⟨hv, fun _ _ _ => by rw [hf], fun _ _ _ => by rw [hf]⟩

omit [Alphabet] in
theorem Fresh.logged {depth : Nat} {t : Workspace} (h : Fresh s root depth t)
    (record : LogRecord) : Fresh s root depth (t.logged record) where
  volume := (t.logged_volume record).trans h.volume
  lists := by
    rw [t.logged_faults]
    exact h.lists
  states := by
    rw [t.logged_faults]
    exact h.states

/-- What a walk gives is decided by the volume and the faults of listings and states. -/
theorem files_gives_of_fresh (hv : s.volume.Sound) (policy : StatPolicy) (retries : Int)
    (root : Path) :
    (∃ found, FoundBelow s policy retries root [[]] found ∧
      ∀ t, Fresh s root 0 t → ∃ u, u.volume = s.volume ∧
        (files policy retries root).runOn t = (.ok (found.map (Path.descend root)), u)) ∨
    ∃ way e, Reached s policy retries root way ∧ listing s (Path.descend root way) = .error e ∧
      ∀ t, Fresh s root 0 t → ∃ u, u.volume = s.volume ∧
        (files policy retries root).runOn t =
          (.error (.listing (Path.descend root way) (some e.message)), u) := by
  have hrun (t : Workspace) (ht : t.volume = s.volume) :
      (files policy retries root).runOn t = (below policy retries (depthBound s.volume + 1)
        ([[]].map (Path.descend root))).runOn t := by
    unfold files
    rw [runOn_bind_of_ok (runOn_get t), ht]
    rfl
  have hlen : ∀ way ∈ ([[]] : List (List Text)), way.length = 0 := by simp
  have hreach : ∀ way ∈ ([[]] : List (List Text)), Reached s policy retries root way := by
    simpa using reached_nil
  have hlevels : depthBound s.volume < 0 + (depthBound s.volume + 1) := by omega
  rcases below_gives hv hlen (List.nodup_singleton _) hreach hlevels with
    ⟨found, hfound, hbelow⟩ | ⟨way, e, hr, he, hbelow⟩
  · refine Or.inl ⟨found, hfound, fun t ht => ?_⟩
    rw [hrun t ht.volume]
    exact hbelow t ht
  · refine Or.inr ⟨way, e, hr, he, fun t ht => ?_⟩
    rw [hrun t ht.volume]
    exact hbelow t ht

/-- What a walk gives is decided by the volume and the faults that it starts with. -/
theorem files_gives (hv : s.volume.Sound) (policy : StatPolicy) (retries : Int) (root : Path) :
    (∃ found, FoundBelow s policy retries root [[]] found ∧
      ∀ t, t.volume = s.volume → t.faults = s.faults → ∃ u, u.volume = s.volume ∧
        (files policy retries root).runOn t = (.ok (found.map (Path.descend root)), u)) ∨
    ∃ way e, Reached s policy retries root way ∧ listing s (Path.descend root way) = .error e ∧
      ∀ t, t.volume = s.volume → t.faults = s.faults → ∃ u, u.volume = s.volume ∧
        (files policy retries root).runOn t =
          (.error (.listing (Path.descend root way) (some e.message)), u) :=
  (files_gives_of_fresh hv policy retries root).imp
    (fun ⟨found, hfound, hfiles⟩ =>
      ⟨found, hfound, fun t hvt hft => hfiles t (Fresh.of_eq hvt hft 0)⟩)
    fun ⟨way, e, hr, he, hfails⟩ =>
      ⟨way, e, hr, he, fun t hvt hft => hfails t (Fresh.of_eq hvt hft 0)⟩

/-- The names of a way are each listed in the folder before. -/
def IsEntry (v : Volume) (root : Path) (way : List Text) : Prop :=
  way ≠ [] ∧ ∀ lead name, lead ++ [name] <+: way →
    ∃ names, v.list (Path.descend root lead) = .ok names ∧ name ∈ names

omit [Alphabet] in
theorem mem_namesIn_of_list {folder : Path} {name : Text} {names : List Text}
    (hl : ∃ names, listing s folder = .ok names) (hlist : s.volume.list folder = .ok names)
    (hn : name ∈ names) : name ∈ namesIn s folder := by
  obtain ⟨listed, hl⟩ := hl
  have heq : listed = names := Except.ok.inj ((list_of_listing hl).symm.trans hlist)
  rw [namesIn, hl, heq]
  exact hn

omit [Alphabet] in
theorem found_iff (hlisted : ∀ way, Reached s policy retries root way →
      ∃ names, listing s (Path.descend root way) = .ok names) {way : List Text} :
    Found s policy retries root way ↔
      IsEntry s.volume root way ∧
      (∀ lead, lead ≠ [] → lead <+: way → lead ≠ way →
        Enters s policy retries (Path.descend root lead)) ∧
      Leaf s policy retries (Path.descend root way) := by
  constructor
  · rintro ⟨lead, name, rfl, hr, hname, hleaf⟩
    refine ⟨⟨by simp, fun l n hp => ?_⟩, fun l hne hp hnot => ?_, hleaf⟩
    · have hn : n ∈ namesIn s (Path.descend root l) := by
        rcases List.prefix_concat_iff.1 hp with heq | hp
        · obtain ⟨rfl, hnn⟩ := List.append_inj' heq rfl
          obtain rfl : n = name := by simpa using hnn
          exact hname
        · exact (hr l n hp).1
      exact ⟨_, list_of_mem_namesIn hn, hn⟩
    · obtain ⟨first, last, rfl⟩ := (List.eq_nil_or_concat' l).resolve_left hne
      exact (hr first last ((List.prefix_concat_iff.1 hp).resolve_left hnot)).2
  · rintro ⟨⟨hne, hentry⟩, henters, hleaf⟩
    obtain ⟨lead, name, rfl⟩ := (List.eq_nil_or_concat' way).resolve_left hne
    -- The folders on the way are reached one after the other.
    have hreached : ∀ l, l <+: lead → Reached s policy retries root l := by
      intro l
      induction l using List.reverseRecOn with
      | nil => exact fun _ => reached_nil
      | append_singleton l n ih =>
        intro hp
        have hr := ih ((List.prefix_append ..).trans hp)
        have hlong : l ++ [n] <+: lead ++ [name] := hp.trans (List.prefix_append ..)
        obtain ⟨names, hlist, hn⟩ := hentry l n hlong
        refine hr.concat (mem_namesIn_of_list (hlisted l hr) hlist hn)
          (henters _ (by simp) hlong fun heq => ?_)
        have hlen := hp.length_le
        rw [heq, List.length_append, List.length_singleton] at hlen
        omega
    obtain ⟨names, hlist, hn⟩ := hentry lead name (List.prefix_refl _)
    have hr := hreached lead (List.prefix_refl _)
    exact ⟨lead, name, rfl, hr, mem_namesIn_of_list (hlisted lead hr) hlist hn, hleaf⟩

/-- A walk returns exactly the leaves below its root, each once: the entries in folders that are
found out to be folders, all the way, which are found out not to be folders or, if they cannot be
read and the policy says so, are taken for files. -/
theorem files_are_leaves (hv : s.volume.Sound)
    (hlisted : ∀ way, Reached s policy retries root way →
      ∃ names, listing s (Path.descend root way) = .ok names) :
    ∃ found t, (files policy retries root).runOn s = (.ok found, t) ∧ t.volume = s.volume ∧
      found.Nodup ∧
      ∀ path, path ∈ found ↔ ∃ way, path = Path.descend root way ∧
        IsEntry s.volume root way ∧
        (∀ lead, lead ≠ [] → lead <+: way → lead ≠ way →
          Enters s policy retries (Path.descend root lead)) ∧
        Leaf s policy retries (Path.descend root way) := by
  rcases files_gives hv policy retries root with
    ⟨ways, hfound, hfiles⟩ | ⟨way, e, hr, he, _⟩
  · obtain ⟨t, hvt, hrun⟩ := hfiles s rfl rfl
    refine ⟨_, t, hrun, hvt, nodup_descend root hfound.nodup fun way hw => ?_, fun path => ?_⟩
    · obtain ⟨lead, name, rfl, hr, hname, _⟩ := ((hfound.mem way).1 hw).1
      exact List.forall_mem_append.2 ⟨hr.isName hv,
        List.forall_mem_singleton.2 (isName_of_mem_namesIn hv hname)⟩
    · simp only [List.mem_map, hfound.mem, List.mem_singleton, exists_eq_left, List.nil_prefix,
        and_true, found_iff hlisted]
      constructor
      · rintro ⟨way, hfound, rfl⟩
        exact ⟨way, rfl, hfound⟩
      · rintro ⟨way, rfl, hfound⟩
        exact ⟨way, hfound, rfl⟩
  · obtain ⟨names, hl⟩ := hlisted way hr
    rw [hl] at he
    simp at he

/-- On a tree the entries are what stands below the root. -/
theorem isEntry_iff {v : Volume} (h : v.Tree) {place : Place} (hl : v.Leads root place)
    (hp : v.get? place = some .folder) {way : List Text} :
    IsEntry v root way ↔ way ≠ [] ∧ ∃ entry, v.get? (place ++ way) = some entry := by
  refine and_congr_right fun hne => ?_
  constructor
  · intro hentry
    have hstands : ∀ l, l <+: way → ∃ entry, v.get? (place ++ l) = some entry := by
      intro l
      induction l using List.reverseRecOn with
      | nil => exact fun _ => ⟨.folder, by rw [List.append_nil, hp]⟩
      | append_singleton l n ih =>
        intro hpre
        obtain ⟨entry, he⟩ := ih ((List.prefix_append ..).trans hpre)
        obtain ⟨names, hlist, hn⟩ := hentry l n hpre
        have hleads := h.leads_descend hl he
        have hfolder := h.folder_of_list hleads hlist
        rw [h.list_of_leads hleads hfolder] at hlist
        obtain rfl := Except.ok.inj hlist
        rw [← List.append_assoc]
        exact h.mem_names_iff.1 hn
    exact hstands way (List.prefix_refl _)
  · rintro ⟨entry, he⟩ lead name ⟨rest, rfl⟩
    have hbelow : v.get? ((place ++ lead) ++ (name :: rest)) = some entry := by
      simpa using he
    have hfolder := h.folder_of_below hbelow (by simp)
    refine ⟨_, h.list_of_leads (h.leads_descend hl hfolder) hfolder, h.mem_names_iff.2 ?_⟩
    by_cases hrest : rest = []
    · exact ⟨entry, by simpa [hrest] using he⟩
    · have hrest' : v.get? ((place ++ (lead ++ [name])) ++ rest) = some entry := by
        simpa using he
      have hname := h.folder_of_below hrest' hrest
      rw [← List.append_assoc] at hname
      exact ⟨.folder, hname⟩

end Inlay.Walk

namespace Inlay.Walk

open Inlay.Standard

/-- A file whose state is read at the second attempt, one whose state is never read, and one in a
folder. -/
def shaky : Workspace :=
  { Workspace.holding
      [(["r".toList], .folder), (["r".toList, "a.tea".toList], .file []),
        (["r".toList, "b.tea".toList], .file []), (["r".toList, "sub".toList], .folder),
        (["r".toList, "sub".toList, "c.tea".toList], .file [])] with
    faults := [⟨.stat, "r/a.tea".toList, .denied, some 1, 0⟩,
      ⟨.stat, "r/b.tea".toList, .denied, none, 0⟩] }

theorem files_are_leaves_of_shaky :
    ∃ found t, (files .retry 1 "r".toList).runOn shaky = (.ok found, t) ∧ found.Nodup ∧
      "r/a.tea".toList ∈ found ∧ "r/b.tea".toList ∉ found := by
  have hroot : listing shaky "r".toList = .ok ["a.tea".toList, "b.tea".toList, "sub".toList] := by
    cbv
  have hsub : listing shaky "r/sub".toList = .ok ["c.tea".toList] := by cbv
  have ha : shaky.volume.stat "r/a.tea".toList = .ok (.file []) := by cbv
  have hb : shaky.volume.stat "r/b.tea".toList = .ok (.file []) := by cbv
  have hc : shaky.volume.isFolder "r/sub/c.tea".toList = false := by cbv
  have hfirst : ∀ n ∈ namesIn shaky "r".toList,
      shaky.volume.isFolder (Path.descend "r".toList [n]) = true → n = "sub".toList := by
    intro n hn hfolder
    rw [namesIn, hroot] at hn
    simp only [List.mem_cons, List.not_mem_nil, or_false] at hn
    rcases hn with rfl | rfl | rfl
    · have hfile : shaky.volume.isFolder "r/a.tea".toList = false := by rw [Volume.isFolder, ha]
      exact absurd hfolder (by rw [show Path.descend _ _ = "r/a.tea".toList from rfl, hfile]; simp)
    · have hfile : shaky.volume.isFolder "r/b.tea".toList = false := by rw [Volume.isFolder, hb]
      exact absurd hfolder (by rw [show Path.descend _ _ = "r/b.tea".toList from rfl, hfile]; simp)
    · rfl
  have hlisted : ∀ way, Reached shaky .retry 1 "r".toList way →
      ∃ names, listing shaky (Path.descend "r".toList way) = .ok names := by
    intro way hr
    rcases way with _ | ⟨n, _ | ⟨m, rest⟩⟩
    · exact ⟨_, hroot⟩
    · obtain ⟨hn, _, hfolder⟩ := hr [] n (List.prefix_refl _)
      obtain rfl := hfirst n hn hfolder
      exact ⟨_, hsub⟩
    · obtain ⟨hn, _, hfolder⟩ := hr [] n ⟨m :: rest, rfl⟩
      obtain rfl := hfirst n hn hfolder
      obtain ⟨hm, _, hfolder⟩ := hr ["sub".toList] m ⟨rest, rfl⟩
      rw [show Path.descend "r".toList ["sub".toList] = "r/sub".toList from rfl, namesIn,
        hsub] at hm
      obtain rfl := List.mem_singleton.1 hm
      exact absurd hfolder (by rw [show Path.descend _ _ = "r/sub/c.tea".toList from rfl, hc]; simp)
  obtain ⟨found, t, hrun, _, hnodup, hfound⟩ := files_are_leaves (by decide) hlisted
  refine ⟨found, t, hrun, hnodup, (hfound _).2 ⟨["a.tea".toList], rfl, ?_, ?_, Or.inl ?_⟩,
    fun hm => ?_⟩
  · have hl : shaky.volume.Leads "r".toList ["r".toList] := ⟨by decide, by cbv⟩
    exact (isEntry_iff (by decide) hl rfl).2 ⟨by simp, _, rfl⟩
  · intro lead hne hp hnot
    obtain ⟨first, last, rfl⟩ := (List.eq_nil_or_concat' lead).resolve_left hne
    have hlen := hp.length_le
    exact absurd (hp.eq_of_length (by simp at hlen ⊢; omega)) hnot
  · have hfails : failedReadings shaky "r/a.tea".toList = 1 := by
      rw [failedReadings, ha]
      rfl
    refine ⟨?_, by rw [Volume.isFolder]; exact ha ▸ rfl⟩
    show failedReadings shaky "r/a.tea".toList < _
    rw [hfails]
    exact ENat.natCast_lt_natCast.2 (by decide)
  · obtain ⟨way, hway, _, _, hleaf⟩ := (hfound _).1 hm
    rw [← hway] at hleaf
    have hfails : failedReadings shaky "r/b.tea".toList = ⊤ := by
      rw [failedReadings, hb]
      rfl
    rcases hleaf with ⟨hclassified, _⟩ | ⟨hpolicy, _⟩
    · rw [Classified, hfails] at hclassified
      simp at hclassified
    · simp at hpolicy

end Inlay.Walk
