import EnvClient.Storage
import EnvClient.Proofs.Members

/-! What writing and removing temporary files does to a disk. -/
namespace EnvClient

def Fate.fault? : Fate → Option StorageFault
  | kept => none
  | failsToOpen => some .create
  | cutShort _ => some .write
  | lost => some .keep

namespace Disk

def keep (content : String) (d : Disk) : Disk :=
  { d with files := Members.insert (d.path d.made) content d.files, made := d.made + 1 }

def after (d : Disk) (contents : List String) : Disk :=
  contents.foldl (fun d content => (d.writeTemporary content).2) d

/-- No temporary file is given the path of a file that is there, however many came before it. -/
def GivesNewPaths (d : Disk) : Prop :=
  ∀ contents, (d.after contents).path (d.after contents).made ∉
    Members.names (d.after contents).files

/-- The fault of the first of some temporary files that is not kept. -/
def firstFault? (d : Disk) (contents : List String) : Option StorageFault :=
  (contents.zipIdx d.made).findSome? fun (content, n) => (d.fate n content).fault?

/-- The second disk is the first with new files at the given paths, one for each content. -/
structure Adds (d d' : Disk) (paths contents : List String) : Prop where
  length : paths.length = contents.length
  distinct : paths.Nodup
  isNew : ∀ path ∈ paths, path ∉ Members.names d.files
  holds : ∀ (i : Nat) (path content : String), paths[i]? = some path →
    contents[i]? = some content → Members.get? path d'.files = some content
  keeps : ∀ path, path ∉ paths → Members.get? path d'.files = Members.get? path d.files

@[simp] theorem files_remove (path : String) (d : Disk) :
    (d.remove path).files = Members.erase path d.files := rfl

theorem removeAll_cons (path : String) (paths : List String) (d : Disk) :
    d.removeAll (path :: paths) = (d.remove path).removeAll paths := rfl

theorem files_removeAll_congr {d d' : Disk} (h : d'.files = d.files) (paths : List String) :
    (d'.removeAll paths).files = (d.removeAll paths).files := by
  induction paths generalizing d d' with
  | nil => exact h
  | cons path paths ih =>
    rw [removeAll_cons, removeAll_cons]
    exact ih (congrArg (Members.erase path) h)

theorem sorted_removeAll {d : Disk} (h : Members.Sorted d.files) (paths : List String) :
    Members.Sorted (d.removeAll paths).files := by
  induction paths generalizing d with
  | nil => exact h
  | cons path paths ih => exact ih (h.erase path)

theorem get?_removeAll {d : Disk} (h : Members.Sorted d.files) (paths : List String)
    (name : String) :
    Members.get? name (d.removeAll paths).files =
      if name ∈ paths then none else Members.get? name d.files := by
  induction paths generalizing d with
  | nil => rfl
  | cons path paths ih =>
    rw [removeAll_cons, ih (h.erase path), files_remove, h.get?_erase]
    by_cases hname : name = path
    · simp [hname]
    · simp [hname]

theorem removeAll_removeAll {d : Disk} (h : Members.Sorted d.files) (paths : List String) :
    ((d.removeAll paths).removeAll paths).files = (d.removeAll paths).files := by
  have hsorted := sorted_removeAll h paths
  apply (sorted_removeAll hsorted paths).ext hsorted
  intro name
  rw [get?_removeAll hsorted, get?_removeAll h]
  split
  · rfl
  · rfl

theorem files_repeat_removeAll {d : Disk} (h : Members.Sorted d.files) (paths : List String)
    (n : Nat) :
    (Nat.repeat (removeAll paths) (n + 1) d).files = (d.removeAll paths).files := by
  induction n with
  | zero => rfl
  | succ n ih => exact (files_removeAll_congr ih paths).trans (removeAll_removeAll h paths)

theorem writeTemporary_of_kept {d : Disk} {content : String}
    (h : (d.fate d.made content).fault? = none) :
    d.writeTemporary content = (.ok (d.path d.made), d.keep content) := by
  unfold writeTemporary
  cases hfate : d.fate d.made content with
  | kept => rfl
  | _ =>
    rw [hfate] at h
    cases h

theorem writeTemporary_of_fault {d : Disk} {content : String} {fault : StorageFault}
    (hsorted : Members.Sorted d.files) (hnew : d.path d.made ∉ Members.names d.files)
    (h : (d.fate d.made content).fault? = some fault) :
    d.writeTemporary content = (.error fault, { d with made := d.made + 1 }) := by
  have hundone (text : String) :
      Members.erase (d.path d.made) (Members.insert (d.path d.made) text d.files) = d.files := by
    rw [hsorted.erase_insert, Members.erase_eq_self hnew]
  unfold writeTemporary put remove
  cases hfate : d.fate d.made content with
  | kept =>
    rw [hfate] at h
    cases h
  | _ =>
    rw [hfate] at h
    cases h
    simp only [hundone]

theorem names_writeTemporary {name content : String} {d : Disk}
    (h : name ∈ Members.names (d.writeTemporary content).2.files) :
    name ∈ Members.names d.files ∨ name = d.path d.made := by
  have hinsert {text : String}
      (hmem : name ∈ Members.names (Members.insert (d.path d.made) text d.files)) :
      name ∈ Members.names d.files ∨ name = d.path d.made :=
    (Members.mem_names_insert.mp hmem).symm
  unfold writeTemporary at h
  cases hfate : d.fate d.made content with
  | kept =>
    rw [hfate] at h
    exact hinsert h
  | failsToOpen =>
    rw [hfate] at h
    exact Or.inl h
  | cutShort written =>
    rw [hfate] at h
    exact hinsert (((Members.erase_sublist _ _).map _).subset h)
  | lost =>
    rw [hfate] at h
    exact hinsert (((Members.erase_sublist _ _).map _).subset h)

theorem path_writeTemporary (content : String) (d : Disk) :
    (d.writeTemporary content).2.path = d.path := by
  unfold writeTemporary
  cases d.fate d.made content <;> rfl

theorem made_writeTemporary (content : String) (d : Disk) :
    (d.writeTemporary content).2.made = d.made + 1 := by
  unfold writeTemporary
  cases d.fate d.made content <;> rfl

theorem givesNewPaths_of_injective {d : Disk} (hinjective : ∀ m n, d.path m = d.path n → m = n)
    (hfree : ∀ n, d.made ≤ n → d.path n ∉ Members.names d.files) : d.GivesNewPaths := by
  intro contents
  induction contents generalizing d with
  | nil => exact hfree _ (Nat.le_refl _)
  | cons content contents ih =>
    apply ih (d := (d.writeTemporary content).2)
    · rw [path_writeTemporary]
      exact hinjective
    · intro n hn hmem
      rw [made_writeTemporary] at hn
      rw [path_writeTemporary] at hmem
      cases names_writeTemporary hmem with
      | inl hold => exact hfree n (by omega) hold
      | inr heq =>
        have := hinjective _ _ heq
        omega

theorem GivesNewPaths.now {d : Disk} (h : d.GivesNewPaths) :
    d.path d.made ∉ Members.names d.files :=
  h []

theorem after_cons_of_kept {d : Disk} {content : String}
    (hkept : (d.fate d.made content).fault? = none) (contents : List String) :
    d.after (content :: contents) = (d.keep content).after contents := by
  unfold after
  rw [List.foldl_cons, writeTemporary_of_kept hkept]

theorem GivesNewPaths.keep {d : Disk} (h : d.GivesNewPaths) {content : String}
    (hkept : (d.fate d.made content).fault? = none) : (d.keep content).GivesNewPaths := by
  intro contents
  rw [← after_cons_of_kept hkept]
  exact h (content :: contents)

theorem firstFault?_cons_of_kept {d : Disk} {content : String}
    (hkept : (d.fate d.made content).fault? = none) (contents : List String) :
    d.firstFault? (content :: contents) = (d.keep content).firstFault? contents := by
  unfold firstFault?
  simp only [List.zipIdx_cons, List.findSome?_cons, hkept]
  rfl

theorem firstFault?_cons_of_fault {d : Disk} {content : String} {fault : StorageFault}
    (h : (d.fate d.made content).fault? = some fault) (contents : List String) :
    d.firstFault? (content :: contents) = some fault := by
  unfold firstFault?
  simp only [List.zipIdx_cons, List.findSome?_cons, h]

/-- Removing a new file with others leaves what removing the others would have left without it. -/
theorem removeAll_keep {d : Disk} (hsorted : Members.Sorted d.files)
    (hnew : d.path d.made ∉ Members.names d.files) (content : String) (paths : List String) :
    ((d.keep content).removeAll (paths ++ [d.path d.made])).files = (d.removeAll paths).files := by
  have hkeep : Members.Sorted (d.keep content).files := hsorted.insert _ content
  apply (sorted_removeAll hkeep _).ext (sorted_removeAll hsorted paths)
  intro name
  rw [get?_removeAll hkeep, get?_removeAll hsorted]
  change (if _ then _ else Members.get? name (Members.insert _ content d.files)) = _
  rw [Members.get?_insert]
  by_cases hname : name = d.path d.made
  · subst hname
    rw [if_pos (List.mem_append_right _ (List.mem_singleton.mpr rfl)),
      Members.get?_eq_none_iff.mpr hnew, ite_self]
  · simp [hname]

theorem Adds.nil (d : Disk) : d.Adds d [] [] where
  length := rfl
  distinct := List.nodup_nil
  isNew := nofun
  holds := nofun
  keeps _ _ := rfl

theorem Adds.cons {d d' : Disk} {content : String} {paths contents : List String}
    (hnew : d.path d.made ∉ Members.names d.files)
    (h : (d.keep content).Adds d' paths contents) :
    d.Adds d' (d.path d.made :: paths) (content :: contents) := by
  have hfirst : d.path d.made ∉ paths := fun hmem =>
    h.isNew _ hmem (Members.mem_names_insert.mpr (Or.inl rfl))
  have hget (name : String) : Members.get? name (d.keep content).files =
      if name = d.path d.made then some content else Members.get? name d.files :=
    Members.get?_insert name _ content d.files
  refine ⟨congrArg (· + 1) h.length, List.nodup_cons.mpr ⟨hfirst, h.distinct⟩, ?_, ?_, ?_⟩
  · intro path hmem
    cases List.mem_cons.mp hmem with
    | inl heq => exact heq ▸ hnew
    | inr hrest => exact fun hold => h.isNew path hrest (Members.mem_names_insert.mpr (Or.inr hold))
  · intro i path text hpath htext
    cases i with
    | zero =>
      cases hpath
      cases htext
      rw [h.keeps _ hfirst, hget, if_pos rfl]
    | succ i => exact h.holds i path text hpath htext
  · intro path hpath
    obtain ⟨hne, hrest⟩ := List.ne_and_not_mem_of_not_mem_cons hpath
    rw [h.keeps path hrest, hget, if_neg hne]

end Disk
end EnvClient
