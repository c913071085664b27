import Inlay.Proofs.Volume.NormalForm
import Inlay.Proofs.Volume.Removal

/-!
# Reading what has been written

In a sound volume, whatever links there are, a file is read as it has been written
(`Sound.read_of_write`): a way that leads to a file, or to where one can be made, still leads there
once the file is there. Writing files and making folders keeps a volume sound.
-/

namespace Inlay

/-- Where an entry is, or would be. -/
def Landing.place : Landing → Place
  | .found place => place
  | .vacant folder name => folder ++ [name]

namespace Volume

variable {v : Volume}

/-! ### Ways with links -/

/-- A name that can be looked up in the folder at a place. -/
structure Asks (v : Volume) (here : Place) (name : Text) : Prop where
  folder : v.get? here = some .folder
  notHere : name ≠ Path.here
  notAbove : name ≠ Path.above
  fits : Limits.exceeds v.limits.name (Utf8.encode name).length = false

/-- The way to its end, links included: `links` of them may still be followed. -/
inductive Reaches (v : Volume) : Nat → Place → List Text → Landing → Prop
  | done (links : Nat) (here : Place) : Reaches v links here [] (.found here)
  | stay {links : Nat} {here : Place} {rest : List Text} {landing : Landing}
      (hp : v.get? here = some .folder) (h : Reaches v links here rest landing) :
      Reaches v links here (Path.here :: rest) landing
  | leave {links : Nat} {here : Place} {rest : List Text} {landing : Landing}
      (hp : v.get? here = some .folder) (h : Reaches v links here.dropLast rest landing) :
      Reaches v links here (Path.above :: rest) landing
  | free {links : Nat} {here : Place} {name : Text} (ha : v.Asks here name)
      (he : v.get? (here ++ [name]) = none) : Reaches v links here [name] (.vacant here name)
  | enter {links : Nat} {here : Place} {name : Text} {rest : List Text} {landing : Landing}
      {entry : Entry} (ha : v.Asks here name) (he : v.get? (here ++ [name]) = some entry)
      (hn : entry.isLink = false) (h : Reaches v links (here ++ [name]) rest landing) :
      Reaches v links here (name :: rest) landing
  | through {links : Nat} {here : Place} {name : Text} {rest : List Text} {landing : Landing}
      {target : Path} (ha : v.Asks here name) (he : v.get? (here ++ [name]) = some (.link target))
      (h : Reaches v links (if target.isAbsolute then [] else here) (steps target ++ rest)
        landing) :
      Reaches v (links + 1) here (name :: rest) landing

/-- Only where a link is found that is not followed does a way end too early. -/
theorem reaches_of_follow {toEnd : Bool} {links : Nat} {here : Place} {steps : List Text}
    {landing : Landing} (h : v.follow toEnd links here steps = .ok landing)
    (hend : toEnd = false → ∀ place, landing ≠ .found place) :
    v.Reaches links here steps landing := by
  fun_induction v.follow toEnd links here steps with
  | case1 =>
    obtain rfl := Except.ok.inj h
    exact .done _ _
  | case2 _ _ _ hp ih => exact .stay hp (ih h)
  | case3 _ _ _ hp _ ih => exact .leave hp (ih h)
  | case5 _ _ _ rest hp hh ha hfits he hrest =>
    obtain rfl := Except.ok.inj h
    obtain rfl := List.isEmpty_iff.1 hrest
    exact .free ⟨hp, hh, ha, by simpa using hfits⟩ he
  | case7 _ _ _ _ _ _ _ _ _ _ hearly =>
    simp only [Bool.and_eq_true, Bool.not_eq_true'] at hearly
    exact absurd (Except.ok.inj h).symm (hend hearly.2 _)
  | case9 _ _ _ hp hh ha hfits _ he _ _ _ ih =>
    exact .through ⟨hp, hh, ha, by simpa using hfits⟩ he (ih h)
  | case10 _ _ _ _ hp hh ha hfits entry hentry he ih =>
    refine .enter ⟨hp, hh, ha, by simpa using hfits⟩ he ?_ (ih h)
    cases entry with
    | link target => exact absurd rfl (hentry target)
    | file content => rfl
    | folder => rfl
  | case4 | case6 | case8 | case11 => simp at h

theorem Reaches.follow {links : Nat} {here : Place} {steps : List Text} {landing : Landing}
    (h : v.Reaches links here steps landing) : v.follow true links here steps = .ok landing := by
  induction h with
  | done => exact follow_nil ..
  | stay hp _ ih => rw [follow_here hp, ih]
  | leave hp _ ih => rw [follow_above hp, ih]
  | free ha he =>
    rw [Volume.follow, ha.folder]
    simp [ha.notHere, ha.notAbove, ha.fits, he]
  | @enter _ _ _ _ _ entry ha he hn _ ih =>
    rw [Volume.follow, ha.folder]
    simp only [if_neg ha.notHere, if_neg ha.notAbove, ha.fits, he, Bool.false_eq_true, if_false]
    cases entry with
    | link target => simp [Entry.isLink] at hn
    | file content => exact ih
    | folder => exact ih
  | through ha he _ ih =>
    rw [Volume.follow, ha.folder]
    simpa [ha.notHere, ha.notAbove, ha.fits, he] using ih

theorem follow_iff {links : Nat} {here : Place} {steps : List Text} {landing : Landing} :
    v.follow true links here steps = .ok landing ↔ v.Reaches links here steps landing :=
  ⟨fun h => reaches_of_follow h (by simp), Reaches.follow⟩

theorem Reaches.vacant {links : Nat} {here folder : Place} {steps : List Text} {name : Text}
    (h : v.Reaches links here steps (.vacant folder name)) : v.get? (folder ++ [name]) = none := by
  generalize hlanding : Landing.vacant folder name = landing at h
  induction h with
  | done => simp at hlanding
  | stay _ _ ih | leave _ _ ih | enter _ _ _ _ ih | through _ _ _ ih => exact ih hlanding
  | free _ he =>
    obtain ⟨rfl, rfl⟩ := Landing.vacant.inj hlanding
    exact he

/-! ### Where a way ends -/

/-- Something that is no link stands at a place. -/
def Settled (v : Volume) (place : Place) : Prop :=
  ∃ entry, v.get? place = some entry ∧ entry.isLink = false

theorem settled_of_folder {place : Place} (h : v.get? place = some .folder) : v.Settled place :=
  ⟨.folder, h, rfl⟩

/-- What a way finds is no link, and what it does not find can be put there. -/
def Proper (v : Volume) : Landing → Prop
  | .found place => v.Settled place
  | .vacant folder name => v.get? folder = some .folder ∧ Path.IsName name ∧
      v.get? (folder ++ [name]) = none

theorem isPiece_of_mem_steps {path : Path} {x : Text} (h : x ∈ steps path) : Path.IsPiece x := by
  rcases List.mem_append.1 h with h | h
  · exact Path.isPiece_of_mem_components h
  · split at h
    · rw [List.mem_singleton.1 h]
      exact ⟨by decide, by decide⟩
    · simp at h

/-! ### Putting a file at the end of a way -/

/-- A file can be put at a place, if nothing or a file stands there. -/
theorem Reaches.put {place : Place} {content : Bytes} (hne : place ≠ [])
    (hplace : ∀ entry, v.get? place = some entry → entry ≠ .folder ∧ entry.isLink = false)
    {links : Nat} {here : Place} {steps : List Text} {landing : Landing}
    (hr : v.Reaches links here steps landing)
    (hv : ∀ folder name, landing = .vacant folder name → folder ++ [name] = place) :
    (v.put place (.file content)).Reaches links here steps (.found landing.place) := by
  have hfolder {p : Place} (hp : v.get? p = some .folder) :
      (v.put place (.file content)).get? p = some .folder := by
    rw [get?_put hne, if_neg, hp]
    rintro rfl
    exact (hplace _ hp).1 rfl
  have hasks {p : Place} {name : Text} (ha : v.Asks p name) :
      (v.put place (.file content)).Asks p name :=
    ⟨hfolder ha.folder, ha.notHere, ha.notAbove, ha.fits⟩
  induction hr with
  | done => exact .done ..
  | stay hp _ ih => exact .stay (hfolder hp) (ih hv)
  | leave hp _ ih => exact .leave (hfolder hp) (ih hv)
  | @free _ here name ha he =>
    have hfile : (v.put place (.file content)).get? (here ++ [name]) = some (.file content) := by
      rw [get?_put hne, if_pos (hv _ _ rfl)]
    exact .enter (hasks ha) hfile rfl (.done ..)
  | @enter _ here name _ _ entry ha he hn _ ih =>
    by_cases hp : here ++ [name] = place
    · have hfile : (v.put place (.file content)).get? (here ++ [name]) = some (.file content) := by
        rw [get?_put hne, if_pos hp]
      exact .enter (hasks ha) hfile rfl (ih hv)
    · refine .enter (hasks ha) ?_ hn (ih hv)
      rw [get?_put hne, if_neg hp, he]
  | @through _ here name _ _ target ha he _ ih =>
    refine .through (hasks ha) ?_ (ih hv)
    rw [get?_put hne, if_neg, he]
    rintro rfl
    exact absurd (hplace _ he).2 (by simp [Entry.isLink])

/-! ### Writing -/

theorem Reaches.folder {links : Nat} {here : Place} {name : Text} {rest : List Text}
    {landing : Landing} (h : v.Reaches links here (name :: rest) landing) :
    v.get? here = some .folder := by
  cases h with
  | stay hp _ => exact hp
  | leave hp _ => exact hp
  | free ha _ => exact ha.folder
  | enter ha _ _ _ => exact ha.folder
  | through ha _ _ => exact ha.folder

/-- A path that is followed starts at a folder. -/
theorem folder_start {path : Path} (hne : path ≠ []) {landing : Landing}
    (h : v.Reaches linkLimit (v.start path) (Path.components path) landing) :
    v.get? (v.start path) = some .folder := by
  by_cases ha : path.isAbsolute = true
  · rw [start, if_pos ha]
    exact v.get?_nil
  · have hsome := Path.components_ne_nil hne (by simpa using ha)
    obtain ⟨name, rest, hc⟩ := List.exists_cons_of_ne_nil hsome
    rw [hc] at h
    exact h.folder

theorem locate_iff {path : Path} {names : List Text} {landing : Landing} :
    v.locate true path names = .ok landing ↔
      path ≠ [] ∧ Limits.exceeds v.limits.path (Utf8.encode path).length = false ∧
        v.Reaches linkLimit (v.start path) names landing := by
  rw [← follow_iff, locate]
  by_cases hne : path = []
  · simp [hne]
  · by_cases hlong : Limits.exceeds v.limits.path (Utf8.encode path).length = true
    · simp [hne, hlong]
    · simp [hne, hlong]

/-- Where a path leads that a file can be written to. -/
structure Takes (v : Volume) (path : Path) (landing : Landing) : Prop where
  ne_nil : path ≠ []
  noSeparator : path.getLast? ≠ some '/'
  fits : Limits.exceeds v.limits.path (Utf8.encode path).length = false
  reaches : v.Reaches linkLimit (v.start path) (Path.components path) landing
  proper : v.Proper landing
  notFolder : v.get? landing.place ≠ some .folder

theorem not_folder_of_target {path : Path} {place : Place} (h : v.target path = .ok place) :
    v.get? place ≠ some .folder := by
  unfold target at h
  split at h
  · split at h
    · simp at h
    · simp at h
    · split at h <;> simp at h
  · split at h
    · simp at h
    · next hl =>
      obtain rfl := Except.ok.inj h
      simp [(locate_iff.1 hl).2.2.vacant]
    · split at h
      · simp at h
      · next hnot =>
        obtain rfl := Except.ok.inj h
        exact hnot

theorem write_eq_ok_iff {w : Volume} {path : Path} {content : Bytes} :
    v.write path content = .ok w ↔
      ∃ place, v.target path = .ok place ∧ v.put place (.file content) = w := by
  unfold write
  cases v.target path with
  | error e => simp [Except.map]
  | ok place => simp [Except.map]

/-- A path that leads to a file names it. -/
theorem target_of_locate {path : Path} {place : Place} {content : Bytes}
    (hlast : path.getLast? ≠ some '/')
    (hl : v.locate true path (Path.components path) = .ok (.found place))
    (hf : v.get? place = some (.file content)) : v.target path = .ok place := by
  rw [target, if_neg hlast, hl]
  simp only [hf]
  rw [if_neg (by simp)]

namespace Takes

variable {path : Path} {landing : Landing} (h : v.Takes path landing)
include h

theorem place_ne_nil : landing.place ≠ [] := by
  intro hz
  apply h.notFolder
  rw [hz]
  exact v.get?_nil

theorem only {entry : Entry} (he : v.get? landing.place = some entry) :
    entry ≠ .folder ∧ entry.isLink = false := by
  refine ⟨fun hf => h.notFolder (hf ▸ he), ?_⟩
  cases landing with
  | found place =>
    obtain ⟨entry', he', hn⟩ := h.proper
    obtain rfl := Option.some.inj (he.symm.trans he')
    exact hn
  | vacant folder name =>
    have hnone : v.get? (folder ++ [name]) = none := h.proper.2.2
    rw [Landing.place, hnone] at he
    simp at he

theorem locate_found {entry : Entry} (he : v.get? landing.place = some entry) :
    v.locate true path (Path.components path) = .ok (.found landing.place) := by
  have hl := locate_iff.2 ⟨h.ne_nil, h.fits, h.reaches⟩
  cases landing with
  | found place => exact hl
  | vacant folder name =>
    have hnone : v.get? (folder ++ [name]) = none := h.proper.2.2
    rw [Landing.place, hnone] at he
    simp at he

/-- Where a file has been written, its path finds it. -/
theorem locate_put (content : Bytes) :
    (v.put landing.place (.file content)).locate true path (Path.components path) =
      .ok (.found landing.place) := by
  rw [locate_iff]
  refine ⟨h.ne_nil, h.fits, h.reaches.put h.place_ne_nil (fun _ he => h.only he) ?_⟩
  rintro folder name rfl
  rfl

theorem get?_put_self (content : Bytes) :
    (v.put landing.place (.file content)).get? landing.place = some (.file content) := by
  rw [get?_put h.place_ne_nil, if_pos rfl]

theorem read_put (content : Bytes) :
    (v.put landing.place (.file content)).read path = .ok content := by
  have hsteps : steps path = Path.components path := by
    rw [steps, if_neg h.noSeparator, List.append_nil]
  rw [read, stat, hsteps, h.locate_put content]
  simp only [h.get?_put_self content]

theorem target_put (content : Bytes) :
    (v.put landing.place (.file content)).target path = .ok landing.place :=
  target_of_locate h.noSeparator (h.locate_put content) (h.get?_put_self content)

/-- A file is written over at the same place. -/
theorem write_put (content content' : Bytes) :
    (v.put landing.place (.file content)).write path content' =
      .ok (v.put landing.place (.file content')) := by
  rw [write, h.target_put content]
  simp only [Except.map, put_put]

end Takes

variable [Alphabet]

/-! ### Sound volumes -/

theorem Sound.folder_dropLast (h : v.Sound) {place : Place} (hp : v.get? place = some .folder) :
    v.get? place.dropLast = some .folder := by
  rcases List.eq_nil_or_concat place with rfl | ⟨lead, last, rfl⟩
  · rfl
  · rw [List.concat_eq_append] at hp ⊢
    rw [List.dropLast_concat]
    exact (h.child hp).1

theorem isUsable_of_mem_steps {path : Path} (h : Path.IsUsable path) :
    ∀ x ∈ steps path, Path.IsUsable x := by
  intro x hx
  rcases List.mem_append.1 hx with hx | hx
  · exact Path.isUsable_of_mem_components h x hx
  · split at hx
    · rw [List.mem_singleton.1 hx]
      exact Path.isUsable_here
    · simp at hx

/-- The name that a way does not find is part of what is followed: of the path, or of a link. -/
theorem Sound.isUsable_vacant (h : v.Sound) {links : Nat} {here folder : Place}
    {steps : List Text} {name : Text} (hr : v.Reaches links here steps (.vacant folder name))
    (hs : ∀ x ∈ steps, Path.IsUsable x) : Path.IsUsable name := by
  generalize hl : Landing.vacant folder name = landing at hr
  induction hr with
  | done => simp at hl
  | stay _ _ ih => exact ih (List.forall_mem_cons.1 hs).2 hl
  | leave _ _ ih => exact ih (List.forall_mem_cons.1 hs).2 hl
  | free _ _ =>
    obtain ⟨_, rfl⟩ := Landing.vacant.inj hl
    exact hs _ (List.mem_cons_self ..)
  | enter _ _ _ _ ih => exact ih (List.forall_mem_cons.1 hs).2 hl
  | through _ he _ ih =>
    exact ih (List.forall_mem_append.2 ⟨isUsable_of_mem_steps (h.isUsable_target he),
      (List.forall_mem_cons.1 hs).2⟩) hl

/-- A way finds its end by names that are there. -/
theorem Sound.isUsable_found (h : v.Sound) {links : Nat} {here place : Place} {steps : List Text}
    (hr : v.Reaches links here steps (.found place)) : ∀ x ∈ steps, Path.IsUsable x := by
  generalize hl : Landing.found place = landing at hr
  induction hr with
  | done => simp
  | stay _ _ ih => exact List.forall_mem_cons.2 ⟨Path.isUsable_here, ih hl⟩
  | leave _ _ ih => exact List.forall_mem_cons.2 ⟨Path.isUsable_above, ih hl⟩
  | free => simp at hl
  | enter _ he _ _ ih => exact List.forall_mem_cons.2 ⟨h.isUsable_last he, ih hl⟩
  | through _ he _ ih =>
    exact List.forall_mem_cons.2
      ⟨h.isUsable_last he, (List.forall_mem_append.1 (ih hl)).2⟩

theorem Sound.proper_of_reaches (h : v.Sound) {links : Nat} {here : Place} {steps : List Text}
    {landing : Landing} (hr : v.Reaches links here steps landing) (hs : v.Settled here)
    (hpieces : ∀ x ∈ steps, Path.IsPiece x) : v.Proper landing := by
  induction hr with
  | done => exact hs
  | stay hp _ ih => exact ih hs (List.forall_mem_cons.1 hpieces).2
  | leave hp _ ih =>
    exact ih (settled_of_folder (h.folder_dropLast hp)) (List.forall_mem_cons.1 hpieces).2
  | free ha he =>
    have hpiece := hpieces _ (List.mem_cons_self ..)
    exact ⟨ha.folder, ⟨hpiece.1, hpiece.2, ha.notHere, ha.notAbove⟩, he⟩
  | enter _ he hn _ ih => exact ih ⟨_, he, hn⟩ (List.forall_mem_cons.1 hpieces).2
  | through ha _ _ ih =>
    refine ih ?_ fun x hx => ?_
    · split
      · exact settled_of_folder v.get?_nil
      · exact settled_of_folder ha.folder
    · rcases List.mem_append.1 hx with hx | hx
      · exact isPiece_of_mem_steps hx
      · exact (List.forall_mem_cons.1 hpieces).2 x hx

/-- What is found has a path that is accepted. -/
theorem Sound.isUsable_of_leads (h : v.Sound) {path : Path} {place : Place}
    (hl : v.Leads path place) : Path.IsUsable path :=
  Path.isUsable_of_components (h.isUsable_found (follow_iff.1 hl.2))

/-- What is there has a path that is accepted. -/
theorem Sound.isUsable_of_stat (h : v.Sound) {path : Path} {entry : Entry}
    (hs : v.stat path = .ok entry) : Path.IsUsable path := by
  obtain ⟨place, hl, _⟩ := stat_eq_ok_iff.1 hs
  have hsteps := h.isUsable_found (locate_iff.1 hl).2.2
  exact Path.isUsable_of_components fun n hn => hsteps n (List.mem_append_left _ hn)

theorem Sound.isUsable_of_read (h : v.Sound) {path : Path} {content : Bytes}
    (hr : v.read path = .ok content) : Path.IsUsable path :=
  h.isUsable_of_stat (read_eq_ok_iff.1 hr)

omit [Alphabet] in
/-- Something is found at a relative path only if the current folder is there. -/
theorem standing_of_stat {path : Path} {entry : Entry} (hs : v.stat path = .ok entry) :
    path.isAbsolute = true ∨ v.get? v.current = some .folder := by
  obtain ⟨place, hl, _⟩ := stat_eq_ok_iff.1 hs
  obtain ⟨hne, _, hfollow⟩ := locate_iff.1 hl
  cases ha : path.isAbsolute with
  | true => exact Or.inl rfl
  | false =>
    have hsteps : steps path ≠ [] := by
      simp [steps, Path.components_ne_nil hne ha]
    exact Or.inr (standing_of_follow ha hsteps (follow_iff.2 hfollow))

/-- The names of the current folder are accepted if it is there. -/
theorem Sound.isUsable_absolute (h : v.Sound) {path : Path} (hu : Path.IsUsable path)
    (hc : path.isAbsolute = true ∨ v.get? v.current = some .folder) :
    Path.IsUsable (v.absolute path) := by
  refine Path.isUsable_absolute rfl (hc.imp_right fun hfolder => ?_) hu
  refine Path.isUsable_append (a := ['/']).2 ⟨Path.isUsable_slash, fun c hm => ?_⟩
  rcases Text.mem_join hm with rfl | ⟨name, hname, hm⟩
  · exact Path.isUsable_slash _ (List.mem_singleton_self _)
  · exact h.isUsable_below (show v.get? ([] ++ v.current) = some .folder from hfolder) name hname
      c hm

theorem Sound.proper_of_locate (h : v.Sound) {toEnd : Bool} {path : Path} {landing : Landing}
    (hl : v.locate toEnd path (Path.components path) = .ok landing)
    (hend : toEnd = false → ∀ place, landing ≠ .found place) : v.Proper landing := by
  have hne : path ≠ [] := by
    rintro rfl
    simp [locate] at hl
  have hr := reaches_of_follow (follow_of_locate hl) hend
  exact h.proper_of_reaches hr (settled_of_folder (folder_start hne hr))
    fun _ hx => Path.isPiece_of_mem_components hx

theorem Sound.takes_of_target (h : v.Sound) {path : Path} {place : Place}
    (ht : v.target path = .ok place) : ∃ landing, v.Takes path landing ∧ landing.place = place := by
  have hproper {landing : Landing} (hl : v.locate true path (Path.components path) = .ok landing) :
      v.Proper landing := h.proper_of_locate hl (by simp)
  unfold target at ht
  split at ht
  · split at ht
    · simp at ht
    · simp at ht
    · split at ht <;> simp at ht
  · next hlast =>
    split at ht
    · simp at ht
    · next folder name hl =>
      obtain ⟨hne, hfits, hr⟩ := locate_iff.1 hl
      have hnone : v.get? (folder ++ [name]) ≠ some .folder := by
        rw [(hproper hl).2.2]
        simp
      exact ⟨_, ⟨hne, hlast, hfits, hr, hproper hl, hnone⟩, Except.ok.inj ht⟩
    · next found hl =>
      obtain ⟨hne, hfits, hr⟩ := locate_iff.1 hl
      split at ht
      · simp at ht
      · next hnot =>
        exact ⟨_, ⟨hne, hlast, hfits, hr, hproper hl, hnot⟩, Except.ok.inj ht⟩

theorem Sound.takes_of_write (h : v.Sound) {w : Volume} {path : Path} {content : Bytes}
    (hw : v.write path content = .ok w) :
    ∃ landing, v.Takes path landing ∧ w = v.put landing.place (.file content) := by
  obtain ⟨place, htarget, rfl⟩ := write_eq_ok_iff.1 hw
  obtain ⟨landing, htakes, rfl⟩ := h.takes_of_target htarget
  exact ⟨landing, htakes, rfl⟩

theorem Takes.sound_put {path : Path} {landing : Landing} (h : v.Takes path landing)
    (hs : v.Sound) (hu : Path.IsUsable path) (content : Bytes) :
    (v.put landing.place (.file content)).Sound := by
  have hfile := Entry.usable_of_not_link (show (Entry.file content).isLink = false from rfl)
  cases landing with
  | vacant folder name =>
    obtain ⟨hp, hn, _⟩ := h.proper
    have hname := hs.isUsable_vacant h.reaches (Path.isUsable_of_mem_components hu)
    exact hs.put hp hn hname hfile h.notFolder
  | found place =>
    obtain ⟨entry, he, _⟩ := h.proper
    rcases List.eq_nil_or_concat place with rfl | ⟨lead, last, rfl⟩
    · exact absurd v.get?_nil h.notFolder
    · rw [List.concat_eq_append] at he
      obtain ⟨hp, hn⟩ := hs.child he
      have hnot := h.notFolder
      rw [Landing.place, List.concat_eq_append] at hnot ⊢
      exact hs.put hp hn (hs.isUsable_last he) hfile hnot

/-- The current folder and all others stay, and so does soundness. -/
structure Holds (v w : Volume) : Prop where
  current : w.current = v.current
  folders : ∀ place, v.get? place = some .folder → w.get? place = some .folder
  sound : v.Sound → w.Sound

theorem Holds.refl (v : Volume) : v.Holds v := ⟨rfl, fun _ => id, id⟩

theorem Holds.trans (u v w : Volume) (h : u.Holds v) (h' : v.Holds w) : u.Holds w :=
  ⟨h'.current.trans h.current, fun place hp => h'.folders place (h.folders place hp),
    fun hs => h'.sound (h.sound hs)⟩

omit [Alphabet] in
theorem folder_put {place : Place} {entry : Entry}
    (h : v.get? place ≠ some .folder) {other : Place} (hf : v.get? other = some .folder) :
    (v.put place entry).get? other = some .folder := by
  have hne : place ≠ [] := fun hz => h (hz ▸ v.get?_nil)
  have hother : other ≠ place := fun heq => h (heq ▸ hf)
  rw [get?_put hne, if_neg hother, hf]

theorem Sound.read_of_write (h : v.Sound) {w : Volume} {path : Path} {content : Bytes}
    (hw : v.write path content = .ok w) : w.read path = .ok content := by
  obtain ⟨landing, htakes, rfl⟩ := h.takes_of_write hw
  exact htakes.read_put content

/-- What has been written can be written over. -/
theorem Sound.exists_write_again (h : v.Sound) {w : Volume} {path : Path} {content : Bytes}
    (hw : v.write path content = .ok w) (content' : Bytes) :
    ∃ w', w.write path content' = .ok w' ∧ w'.read path = .ok content' := by
  obtain ⟨landing, htakes, rfl⟩ := h.takes_of_write hw
  exact ⟨_, htakes.write_put content content', htakes.read_put content'⟩

theorem holds_write {w : Volume} {path : Path} (hu : Path.IsUsable path) {content : Bytes}
    (hw : v.write path content = .ok w) : v.Holds w where
  current := by
    obtain ⟨place, _, rfl⟩ := write_eq_ok_iff.1 hw
    rfl
  folders _ hf := by
    obtain ⟨place, ht, rfl⟩ := write_eq_ok_iff.1 hw
    exact folder_put (not_folder_of_target ht) hf
  sound h := by
    obtain ⟨landing, htakes, rfl⟩ := h.takes_of_write hw
    exact htakes.sound_put h hu content

/-! ### Making folders -/

theorem holds_makeFolder {w : Volume} {path : Path} (hu : Path.IsUsable path)
    (hw : v.makeFolder path = .ok w) :
    v.Holds w := by
  unfold makeFolder at hw
  split at hw
  · simp at hw
  · simp at hw
  · next folder name hl =>
    obtain rfl := Except.ok.inj hw
    have hr := reaches_of_follow (follow_of_locate hl) (by simp)
    refine ⟨rfl, fun _ hf => folder_put (by simp [hr.vacant]) hf, fun h => ?_⟩
    obtain ⟨hp, hn, hnone⟩ := h.proper_of_locate hl (by simp)
    have hname := h.isUsable_vacant hr (Path.isUsable_of_mem_components hu)
    exact h.put hp hn hname (Entry.usable_of_not_link rfl) (by simp [hnone])

end Volume

end Inlay
