import Inlay.Proofs.Volume.Making

/-!
# Ways that meet a file

A file on the way below a folder stops every way through it (`follow_blocked`, `stat_blocked`). On a
way that meets no file, what an operation finds depends only on what stands at its end
(`stat_open`).
-/

namespace Inlay.Volume

def FileAt (v : Volume) (place : Place) : Prop :=
  ∃ content, v.get? place = some (.file content)

/-- Folders are folders and files are files, of whatever content; more may be there. -/
structure Persists (v w : Volume) : Prop where
  current : w.current = v.current
  folder : ∀ p, v.get? p = some .folder → w.get? p = some .folder
  file : ∀ p, v.FileAt p → w.FileAt p

variable {v w : Volume}

theorem FileAt.not_folder {place : Place} (h : v.FileAt place) : v.get? place ≠ some .folder := by
  obtain ⟨content, hc⟩ := h
  simp [hc]

/-! ### What persists -/

theorem Persists.refl (v : Volume) : Persists v v := ⟨rfl, fun _ h => h, fun _ h => h⟩

theorem Persists.trans {u : Volume} (h : Persists u v) (h' : Persists v w) : Persists u w :=
  ⟨h'.current.trans h.current, fun p hp => h'.folder p (h.folder p hp),
    fun p hp => h'.file p (h.file p hp)⟩

theorem Extends.persists (h : v.Extends w) : v.Persists w :=
  ⟨h.current, fun p hp => h.get? p _ hp, fun p ⟨content, hc⟩ => ⟨content, h.get? p _ hc⟩⟩

theorem persists_put {place : Place} (hne : place ≠ []) (h : v.get? place ≠ some .folder)
    (content : Bytes) : v.Persists (v.put place (.file content)) := by
  refine ⟨rfl, ?_, ?_⟩
  · intro p hp
    have hother : p ≠ place := fun heq => h (heq ▸ hp)
    rw [get?_put hne, if_neg hother, hp]
  · intro p hp
    obtain ⟨c, hc⟩ := hp
    by_cases heq : p = place
    · exact ⟨content, by rw [get?_put hne, if_pos heq]⟩
    · exact ⟨c, by rw [get?_put hne, if_neg heq, hc]⟩

/-! ### Where names lead -/

/-- Where a name in a folder leads: to an entry of the folder, unless it is no proper name. -/
def landing (folder : Place) (name : Text) : Place :=
  if Path.IsName name then folder ++ [name] else folder

/-- What stands where the names of a path have led. -/
def standing (v : Volume) : Except Errno Landing → Except Errno Entry
  | .error e => .error e
  | .ok (.vacant _ _) => .error .noEntry
  | .ok (.found place) => match v.get? place with
    | some entry => .ok entry
    | none => .error .noEntry

@[simp] theorem standing_error (e : Errno) : v.standing (.error e) = .error e := rfl

theorem standing_of_some {place : Place} {entry : Entry} (h : v.get? place = some entry) :
    v.standing (.ok (.found place)) = .ok entry := by
  simp only [standing, h]

theorem standing_of_none {place : Place} (h : v.get? place = none) :
    v.standing (.ok (.found place)) = .error .noEntry := by
  simp only [standing, h]

theorem standing_congr {w : Volume} {place : Place} (h : v.get? place = w.get? place) :
    v.standing (.ok (.found place)) = w.standing (.ok (.found place)) := by
  simp only [standing, h]

theorem stat_eq_standing (path : Path) :
    v.stat path = v.standing (v.locate true path (steps path)) :=
  rfl

variable [Alphabet]

/-! ### Trees -/

theorem Persists.leads (h : v.Persists w) (hv : v.Tree) (hw : w.Tree) {path : Path} {place : Place}
    (hp : v.get? place ≠ none) (hl : v.Leads path place) : w.Leads path place := by
  refine hv.leads_of_folders hw h.current h.folder (fun _ => ?_) hl
  obtain ⟨entry, he⟩ := Option.ne_none_iff_exists'.1 hp
  cases entry with
  | folder => simp [h.folder _ he]
  | file content =>
    obtain ⟨content', hc⟩ := h.file _ ⟨content, he⟩
    simp [hc]
  | link target => exact absurd he hv.not_link

theorem Grown.get?_eq {place : Place} {names : List Text} (hg : v.Grown w place names) (hv : v.Tree)
    (hp : v.get? place = some .folder) (p : Place) :
    w.get? p = if place <+: p ∧ p <+: place ++ names then some .folder else v.get? p := by
  split
  · next h =>
    obtain ⟨_, rest, hrest⟩ := h
    have hfolder := hg.folder
    by_cases hz : rest = []
    · rw [hz, List.append_nil] at hrest
      rw [hrest, hfolder]
    · rw [← hrest] at hfolder
      exact hg.tree.folder_of_below hfolder hz
  · next h =>
    cases hw : w.get? p with
    | none =>
      cases hv' : v.get? p with
      | none => rfl
      | some entry => simp [hg.extends'.get? p entry hv'] at hw
    | some entry =>
      rcases hg.only p entry hw with ho | ⟨rfl, hpre⟩
      · exact ho.symm
      · -- A folder above the place was there before.
        rcases List.prefix_or_prefix_of_prefix hpre (List.prefix_append place names) with hup | hup
        · obtain ⟨rest, hrest⟩ := hup
          by_cases hz : rest = []
          · rw [hz, List.append_nil] at hrest
            rw [hrest, hp]
          · rw [← hrest] at hp
            exact (hv.folder_of_below hp hz).symm
        · exact absurd ⟨hup, hpre⟩ h

theorem Grown.fileAt_iff {place : Place} {names : List Text} (hg : v.Grown w place names)
    (p : Place) :
    w.FileAt p ↔ v.FileAt p := by
  constructor
  · rintro ⟨content, hc⟩
    rcases hg.only p _ hc with ho | ⟨hf, _⟩
    · exact ⟨content, ho⟩
    · simp at hf
  · exact fun ⟨content, hc⟩ => ⟨content, hg.extends'.get? p _ hc⟩

/-! ### Following -/

theorem Tree.follow_blocked (h : v.Tree) {place : Place} {lead : List Text}
    (hf : v.FileAt (place ++ lead)) {rest : List Text} (hne : rest ≠ []) (toEnd : Bool)
    (links : Nat) : v.follow toEnd links place (lead ++ rest) = .error .notFolder := by
  obtain ⟨content, hc⟩ := id hf
  rw [h.follow_append (h.follow_names hc toEnd links)]
  cases rest with
  | nil => exact absurd rfl hne
  | cons name rest =>
    rw [follow_notFolder hf.not_folder, obstacle, hc]
    rfl

theorem Tree.follow_missing (h : v.Tree) {place : Place} (hp : v.get? place = some .folder)
    {names : List Text} (hn : ∀ n ∈ names, Path.IsName n)
    (hopen : ∀ lead, lead <+: names → ¬ v.FileAt (place ++ lead))
    (hnone : v.get? (place ++ names) = none) {rest : List Text} (hne : rest ≠ []) (toEnd : Bool)
    (links : Nat) : v.follow toEnd links place (names ++ rest) = .error .noEntry := by
  induction names generalizing place with
  | nil => simp [hp] at hnone
  | cons n names ih =>
    obtain ⟨_, _, hhere, habove⟩ := hn n (List.mem_cons_self ..)
    rw [List.cons_append, h.follow_name hp hhere habove]
    cases he : v.get? (place ++ [n]) with
    | none => simp [hne]
    | some entry =>
      have hfolder : v.get? (place ++ [n]) = some .folder := by
        cases entry with
        | folder => exact he
        | file content => exact absurd ⟨content, he⟩ (hopen [n] (by simp))
        | link target => exact absurd he h.not_link
      refine ih hfolder (fun m hm => hn m (List.mem_cons_of_mem _ hm)) (fun lead hl => ?_)
        (by simpa using hnone)
      simpa using hopen (n :: lead) (by simpa using hl)

/-! ### Looking -/

section
variable (h : v.Tree) {root : Path} {place : Place} (hl : v.Leads root place) {names : List Text}
  {name : Text} (hn : ∀ n ∈ names, Path.IsName n) (hname : Path.IsPiece name)
include h hl hn hname

theorem Tree.locate_below (toEnd : Bool) :
    v.locate toEnd (Path.descend root (names ++ [name]))
        (Path.components (Path.descend root (names ++ [name]))) =
      v.follow true linkLimit place (names ++ [name]) := by
  have hall := Path.isPiece_concat hn hname
  rw [h.locate (Path.descend_ne_nil hl.1 hall), start, Path.isAbsolute_descend hl.1 hall, ← start,
    Path.components_descend root hall, h.follow_append hl.2]

theorem Tree.stat_eq_follow :
    v.stat (Path.descend root (names ++ [name])) =
      v.standing (v.follow true linkLimit place (names ++ [name])) := by
  have hlast := Path.getLast?_descend_concat root names hname
  rw [stat_eq_standing, steps, if_neg hlast, List.append_nil, h.locate_below hl hn hname]

theorem Tree.stat_blocked {lead : List Text} (hlead : lead <+: names)
    (hf : v.FileAt (place ++ lead)) :
    v.stat (Path.descend root (names ++ [name])) = .error .notFolder := by
  obtain ⟨rest, rfl⟩ := hlead
  rw [h.stat_eq_follow hl hn hname, List.append_assoc, h.follow_blocked hf (by simp),
    standing_error]

theorem Tree.stat_open (hp : v.get? place = some .folder)
    (hopen : ∀ lead, lead <+: names → ¬ v.FileAt (place ++ lead)) :
    v.stat (Path.descend root (names ++ [name])) =
      v.standing (.ok (.found (landing (place ++ names) name))) := by
  rw [h.stat_eq_follow hl hn hname]
  cases he : v.get? (place ++ names) with
  | none =>
    have hend : v.get? (landing (place ++ names) name) = none := by
      unfold landing
      split
      · cases hc : v.get? (place ++ names ++ [name]) with
        | none => rfl
        | some entry => simp [(h.child hc).1] at he
      · exact he
    rw [h.follow_missing hp hn hopen he (by simp), standing_error, standing_of_none hend]
  | some entry =>
    have hfolder : v.get? (place ++ names) = some .folder := by
      cases entry with
      | folder => exact he
      | file content => exact absurd ⟨content, he⟩ (hopen names (List.prefix_refl _))
      | link target => exact absurd he h.not_link
    rw [h.follow_append (h.follow_names hfolder true linkLimit)]
    by_cases hisName : Path.IsName name
    · rw [landing, if_pos hisName, h.follow_name hfolder hisName.2.2.1 hisName.2.2.2]
      cases hc : v.get? (place ++ names ++ [name]) with
      | none => exact (standing_of_none hc).symm
      | some entry => rw [follow_nil]
    · obtain ⟨found, hfollow, hfound⟩ := h.follow_notName hname hisName hfolder true linkLimit
      rw [landing, if_neg hisName, hfollow, standing_of_some hfound, standing_of_some hfolder]

end

section
variable (h : v.Tree) {root : Path} {place : Place} (hl : v.Leads root place)
  (hp : v.get? place = some .folder)
include h hl hp

theorem Tree.hasEntry_descend {names : List Text} {entry : Entry}
    (he : v.get? (place ++ names) = some entry) :
    v.hasEntry (Path.descend root names) = true := by
  rcases List.eq_nil_or_concat names with rfl | ⟨names, name, rfl⟩
  · exact h.hasEntry_of_leads hl hp
  · rw [List.concat_eq_append] at he ⊢
    simp [hasEntry, h.stat_descend hl he, Except.toOption]

end

/-! ### Where no folder can be made -/

section
variable (h : v.Tree) {root : Path} {place : Place} (hl : v.Leads root place) {names : List Text}
  {name : Text} (hn : ∀ n ∈ names, Path.IsName n) (hname : Path.IsPiece name)
include h hl hn hname

theorem Tree.makeFolder_blocked {lead : List Text} (hlead : lead <+: names)
    (hf : v.FileAt (place ++ lead)) :
    v.makeFolder (Path.descend root (names ++ [name])) = .error .notFolder := by
  obtain ⟨rest, rfl⟩ := hlead
  rw [makeFolder, h.locate_below hl hn hname, List.append_assoc, h.follow_blocked hf (by simp)]

theorem Tree.makeFolder_missing (hp : v.get? place = some .folder)
    (hopen : ∀ lead, lead <+: names → ¬ v.FileAt (place ++ lead))
    (hnone : v.get? (place ++ names) = none) :
    v.makeFolder (Path.descend root (names ++ [name])) = .error .noEntry := by
  rw [makeFolder, h.locate_below hl hn hname, h.follow_missing hp hn hopen hnone (by simp)]

end

end Inlay.Volume
