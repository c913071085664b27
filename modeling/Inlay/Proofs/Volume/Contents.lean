import Inlay.Proofs.Volume.Writing

/-!
# What writing leaves alone

Writing files and making folders takes nothing away, and a file has another content afterwards only
if one of the written paths names it (`Writes.read`). Without links a path only names a file that
has its last name (`Sound.getLast?_of_target`).
-/

namespace Inlay.Volume

variable {v w : Volume} {paths : List Path} {path : Path} {place : Place}

/-- Two paths name one file. -/
def SameFile (v : Volume) (path path' : Path) : Prop :=
  ∃ place, v.target path = .ok place ∧ v.target path' = .ok place

/-! ### The place of a file -/

theorem getLast?_of_stat {content : Bytes} (h : v.stat path = .ok (.file content)) :
    path.getLast? ≠ some '/' := by
  intro hlast
  obtain ⟨place, hl, hf⟩ := stat_eq_ok_iff.1 h
  rw [steps, if_pos hlast] at hl
  obtain ⟨_, folder, _, _, hend⟩ :=
    exists_follow_of_append (Path.components path) (Or.inl rfl) (follow_of_locate hl)
  -- The separator at the end asks for a folder.
  by_cases hp : v.get? folder = some .folder
  · rw [follow_here hp, follow_nil] at hend
    obtain rfl := Landing.found.inj (Except.ok.inj hend)
    rw [hp] at hf
    simp at hf
  · rw [follow_notFolder hp] at hend
    simp at hend

variable [Alphabet]

/-- A file is read where it would be written. -/
theorem Sound.read_iff (hv : v.Sound) {content : Bytes} :
    v.read path = .ok content ↔
      ∃ place, v.target path = .ok place ∧ v.get? place = some (.file content) := by
  rw [read_eq_ok_iff]
  constructor
  · intro h
    have hlast := getLast?_of_stat h
    obtain ⟨place, hl, hf⟩ := stat_eq_ok_iff.1 h
    rw [steps, if_neg hlast, List.append_nil] at hl
    exact ⟨place, target_of_locate hlast hl hf, hf⟩
  · rintro ⟨place, ht, hf⟩
    obtain ⟨landing, htakes, rfl⟩ := hv.takes_of_target ht
    refine stat_eq_ok_iff.2 ⟨landing.place, ?_, hf⟩
    rw [steps, if_neg htakes.noSeparator, List.append_nil]
    exact htakes.locate_found hf

/-- The file that a path names is the same, whatever is written. -/
theorem Carries.target (hc : v.Carries w) (hv : v.Sound) {content : Bytes}
    (ht : v.target path = .ok place) (hf : v.get? place = some (.file content)) :
    w.target path = .ok place := by
  obtain ⟨landing, htakes, rfl⟩ := hv.takes_of_target ht
  obtain ⟨content', hfile⟩ := hc.file _ _ hf
  exact target_of_locate htakes.noSeparator (hc.locate (htakes.locate_found hf)) hfile

/-! ### Written files -/

/-- Nothing has been taken away and no link has been made, and a file has its content unless one of
the paths names it. -/
structure Writes (paths : List Path) (v w : Volume) : Prop extends v.Carries w where
  sound : w.Sound
  noLink : ∀ place target, w.get? place = some (.link target) → v.get? place = some (.link target)
  content : ∀ place content, v.get? place = some (.file content) →
    w.get? place = some (.file content) ∨ ∃ path ∈ paths, w.target path = .ok place

theorem Sound.writes (h : v.Sound) (paths : List Path) : Writes paths v v where
  toCarries := (Extends.refl v).carries
  sound := h
  noLink _ _ hp := hp
  content _ _ hp := Or.inl hp

theorem Writes.trans {u : Volume} (h : Writes paths u v) (h' : Writes paths v w) :
    Writes paths u w where
  toCarries := h.toCarries.trans h'.toCarries
  sound := h'.sound
  noLink p target hp := h.noLink p target (h'.noLink p target hp)
  content p content hp := by
    rcases h.content p content hp with hv | ⟨path, hmem, ht⟩
    · exact h'.content p content hv
    · obtain ⟨content', hfile⟩ := h.file p content hp
      exact Or.inr ⟨path, hmem, h'.toCarries.target h.sound ht hfile⟩

theorem Sound.writes_write (h : v.Sound) (hmem : path ∈ paths) (hu : Path.IsUsable path)
    {content : Bytes} (hw : v.write path content = .ok w) : Writes paths v w := by
  obtain ⟨landing, htakes, rfl⟩ := h.takes_of_write hw
  have hne := htakes.place_ne_nil
  have hother {p : Place} (hp : p ≠ landing.place) :
      (v.put landing.place (.file content)).get? p = v.get? p := by rw [get?_put hne, if_neg hp]
  have hself := htakes.get?_put_self content
  have hnotFolder {p : Place} (hp : v.get? p = some .folder) : p ≠ landing.place := fun he =>
    htakes.notFolder (he ▸ hp)
  have hnotLink {p : Place} {target : Path} (hp : v.get? p = some (.link target)) :
      p ≠ landing.place := fun he => by
    have honly := (htakes.only (he ▸ hp)).2
    simp [Entry.isLink] at honly
  refine ⟨⟨rfl, rfl, fun p hp => ?_, fun p target hp => ?_, fun p c hp => ?_⟩,
    htakes.sound_put h hu content, fun p target hp => ?_, fun p c hp => ?_⟩
  · rw [hother (hnotFolder hp), hp]
  · rw [hother (hnotLink hp), hp]
  · by_cases he : p = landing.place
    · exact ⟨content, he ▸ hself⟩
    · exact ⟨c, by rw [hother he, hp]⟩
  · by_cases he : p = landing.place
    · rw [he, hself] at hp
      simp at hp
    · rwa [hother he] at hp
  · by_cases he : p = landing.place
    · exact Or.inr ⟨path, hmem, he ▸ htakes.target_put content⟩
    · exact Or.inl (by rw [hother he, hp])

theorem Sound.writes_makeFolder (h : v.Sound) (hu : Path.IsUsable path)
    (hw : v.makeFolder path = .ok w) : Writes paths v w := by
  have hsound := (holds_makeFolder hu hw).sound h
  unfold makeFolder at hw
  split at hw
  · simp at hw
  · simp at hw
  · next folder name hl =>
    obtain rfl := Except.ok.inj hw
    obtain ⟨_, _, hnone⟩ := h.proper_of_locate hl (by simp)
    have hne : folder ++ [name] ≠ [] := by simp
    have hextends := extends_put hne hnone .folder
    refine ⟨hextends.carries, hsound, fun p target hp => ?_,
      fun p content hp => Or.inl (hextends.get? p _ hp)⟩
    rw [get?_put hne] at hp
    split at hp
    · simp at hp
    · exact hp

/-- From a sound volume on, nothing but writing at these paths. -/
def Writing (paths : List Path) (v w : Volume) : Prop :=
  v.Sound → Writes paths v w

theorem Writing.refl (paths : List Path) (v : Volume) : Writing paths v v := fun h => h.writes paths

theorem Writing.trans (u v w : Volume) (h : Writing paths u v) (h' : Writing paths v w) :
    Writing paths u w := fun hu => (h hu).trans (h' (h hu).sound)

theorem writing_makeFolder (paths : List Path) (v w : Volume) (path : Path)
    (hu : Path.IsUsable path) (h : v.makeFolder path = .ok w) : Writing paths v w :=
  fun hv => hv.writes_makeFolder hu h

/-- A file can be read as before, or it is one that has been written. -/
theorem Writes.read (h : Writes paths v w) (hv : v.Sound) {content : Bytes}
    (hread : v.read path = .ok content) :
    w.read path = .ok content ∨ ∃ other ∈ paths, w.SameFile other path := by
  obtain ⟨place, ht, hf⟩ := hv.read_iff.1 hread
  have htarget := h.toCarries.target hv ht hf
  rcases h.content place content hf with hfile | ⟨other, hmem, hother⟩
  · exact Or.inl (h.sound.read_iff.2 ⟨place, htarget, hfile⟩)
  · exact Or.inr ⟨other, hmem, place, hother, htarget⟩

/-! ### Without links -/

def LinkFree (v : Volume) : Prop :=
  ∀ place target, v.get? place ≠ some (.link target)

theorem Writes.linkFree (h : Writes paths v w) (hfree : v.LinkFree) : w.LinkFree :=
  fun place target hp => hfree place target (h.noLink place target hp)

/-- A way that does not lead to a folder ends with the last of its names. -/
theorem Reaches.getLast? (hv : v.Sound) (hfree : v.LinkFree) {links : Nat} {here : Place}
    {steps : List Text} {landing : Landing} (h : v.Reaches links here steps landing)
    (hnot : v.get? landing.place ≠ some .folder) {lead : List Text} {name : Text}
    (hsteps : steps = lead ++ [name]) : landing.place.getLast? = some name := by
  induction h generalizing lead with
  | done => simp at hsteps
  | stay hp hrest ih =>
    cases lead with
    | nil =>
      obtain ⟨_, rfl⟩ := List.cons.inj hsteps
      cases hrest
      exact absurd hp hnot
    | cons _ lead => exact ih hnot (List.cons.inj hsteps).2
  | leave hp hrest ih =>
    cases lead with
    | nil =>
      obtain ⟨_, rfl⟩ := List.cons.inj hsteps
      cases hrest
      exact absurd (hv.folder_dropLast hp) hnot
    | cons _ lead => exact ih hnot (List.cons.inj hsteps).2
  | free =>
    cases lead with
    | nil =>
      obtain ⟨rfl, _⟩ := List.cons.inj hsteps
      exact List.getLast?_concat ..
    | cons _ lead => simp at hsteps
  | enter _ _ _ hrest ih =>
    cases lead with
    | nil =>
      obtain ⟨rfl, rfl⟩ := List.cons.inj hsteps
      cases hrest
      exact List.getLast?_concat ..
    | cons _ lead => exact ih hnot (List.cons.inj hsteps).2
  | through _ he => exact absurd he (hfree _ _)

theorem Sound.getLast?_of_target (hv : v.Sound) (hfree : v.LinkFree)
    (ht : v.target path = .ok place) : place.getLast? = some (Path.base path) := by
  obtain ⟨landing, htakes, rfl⟩ := hv.takes_of_target ht
  exact htakes.reaches.getLast? hv hfree htakes.notFolder
    (Path.components_folder (Path.base_ne_nil htakes.ne_nil htakes.noSeparator))

end Inlay.Volume
