import EnvClient.Proofs.Assignments
import EnvClient.Proofs.Storage

/-! Preparing an environment writes all of its files or none. While files are written, what is on
the disk less what has been written is what was there at first; this carries the loop. -/
namespace EnvClient

namespace Prepared

def keepPath (p : Prepared) (entry : String × Projected) (path : String) : Prepared :=
  { p.addPath entry path with files := p.files ++ [path] }

theorem files_foldl_addVariable (redact : Bool) (entries : List (String × Projected))
    (p : Prepared) : (entries.foldl (addVariable redact) p).files = p.files := by
  rw [foldl_addVariable]

variable {p : Prepared} {d : Disk} {entry : String × Projected}
  {rest entries : List (String × Projected)}

theorem addFiles_pretend (entries : List (String × Projected)) (p : Prepared) (d : Disk) :
    ∃ p', p.addFiles true entries d = (.ok p', d) ∧ p'.files = p.files :=
  ⟨_, addFiles_pretend_eq entries p d, rfl⟩

theorem addFiles_cons_of_kept (h : (d.fate d.made entry.2.text).fault? = none) :
    p.addFiles false (entry :: rest) d =
      (p.keepPath entry (d.path d.made)).addFiles false rest (d.keep entry.2.text) := by
  rw [addFiles, if_neg Bool.false_ne_true, Disk.writeTemporary_of_kept h]
  rfl

theorem addFiles_cons_of_fault {fault : StorageFault} (hsorted : Members.Sorted d.files)
    (hnew : d.path d.made ∉ Members.names d.files)
    (h : (d.fate d.made entry.2.text).fault? = some fault) :
    p.addFiles false (entry :: rest) d =
      (.error fault, p.removeFiles { d with made := d.made + 1 }) := by
  rw [addFiles, if_neg Bool.false_ne_true, Disk.writeTemporary_of_fault hsorted hnew h]

theorem files_removeFiles_keepPath (entry : String × Projected)
    (hsorted : Members.Sorted d.files) (hnew : d.path d.made ∉ Members.names d.files)
    (content : String) :
    ((p.keepPath entry (d.path d.made)).removeFiles (d.keep content)).files =
      (p.removeFiles d).files :=
  Disk.removeAll_keep hsorted hnew content p.files

theorem addFiles_of_fault {fault : StorageFault} (hsorted : Members.Sorted d.files)
    (hnew : d.GivesNewPaths)
    (h : d.firstFault? (entries.map fun entry => entry.2.text) = some fault) :
    ∃ d', p.addFiles false entries d = (.error fault, d') ∧
      d'.files = (p.removeFiles d).files := by
  induction entries generalizing p d with
  | nil => cases h
  | cons entry rest ih =>
    rw [List.map_cons] at h
    -- A kept file joins those that the fault to come will remove, so the goal stays the same.
    cases hfault : (d.fate d.made entry.2.text).fault? with
    | some first =>
      rw [Disk.firstFault?_cons_of_fault hfault] at h
      cases h
      refine ⟨_, addFiles_cons_of_fault hsorted hnew.now hfault, ?_⟩
      apply Disk.files_removeAll_congr
      rfl
    | none =>
      rw [Disk.firstFault?_cons_of_kept hfault] at h
      rw [addFiles_cons_of_kept hfault,
        ← files_removeFiles_keepPath entry hsorted hnew.now entry.2.text]
      exact ih (hsorted.insert _ _) (hnew.keep hfault) h

theorem addFiles_of_kept (hsorted : Members.Sorted d.files) (hnew : d.GivesNewPaths)
    (h : d.firstFault? (entries.map fun entry => entry.2.text) = none) :
    ∃ p' d' paths, p.addFiles false entries d = (.ok p', d') ∧ p'.files = p.files ++ paths ∧
      d.Adds d' paths (entries.map fun entry => entry.2.text) ∧ Members.Sorted d'.files ∧
      (p'.removeFiles d').files = (p.removeFiles d).files := by
  induction entries generalizing p d with
  | nil => exact ⟨p, d, [], rfl, (List.append_nil _).symm, .nil d, hsorted, rfl⟩
  | cons entry rest ih =>
    rw [List.map_cons] at h ⊢
    have hfault : (d.fate d.made entry.2.text).fault? = none := by
      cases hfate : (d.fate d.made entry.2.text).fault? with
      | none => rfl
      | some fault =>
        rw [Disk.firstFault?_cons_of_fault hfate] at h
        cases h
    rw [Disk.firstFault?_cons_of_kept hfault] at h
    obtain ⟨p', d', paths, hrun, hfiles, hadds, hsorted', hundo⟩ :=
      ih (p := p.keepPath entry (d.path d.made)) (hsorted.insert _ _) (hnew.keep hfault) h
    refine ⟨p', d', d.path d.made :: paths, ?_, ?_, hadds.cons hnew.now, hsorted', ?_⟩
    · rw [addFiles_cons_of_kept hfault, hrun]
    · rw [hfiles, keepPath, List.append_assoc, List.singleton_append]
    · rw [hundo, files_removeFiles_keepPath entry hsorted hnew.now]

end Prepared

/-- With files left unwritten the disk is not touched. Otherwise the first file that is not kept
is the fault of the whole, and the disk holds what it held before; if all are kept, it holds one
new file more for each entry, in order of name, and removing them restores what was there. -/
theorem NamedProperties.prepare_allOrNothing {properties : NamedProperties}
    (hproperties : properties.WellFormed) (options : PrepareOptions) {d : Disk}
    (hsorted : Members.Sorted d.files) (hnew : d.GivesNewPaths) :
    let contents := properties.files.map fun entry => entry.2.text
    (options.pretend = true → ∃ prepared,
      properties.prepare options d = (.ok prepared, d) ∧ prepared.files = []) ∧
    (options.pretend = false → ∀ fault, d.firstFault? contents = some fault → ∃ d',
      properties.prepare options d = (.error fault, d') ∧ d'.files = d.files) ∧
    (options.pretend = false → d.firstFault? contents = none → ∃ prepared d',
      properties.prepare options d = (.ok prepared, d') ∧ Members.Sorted properties.files ∧
      Members.Sorted d'.files ∧ d.Adds d' prepared.files contents ∧
      ∀ n, (Nat.repeat prepared.removeFiles (n + 1) d').files = d.files) := by
  intro contents
  have hnone : (properties.environment.foldl (Prepared.addVariable options.redact)
      ⟨options.quote, [], [], []⟩).files = [] :=
    Prepared.files_foldl_addVariable options.redact properties.environment _
  unfold prepare
  refine ⟨fun hpretend => ?_, fun hpretend fault hfault => ?_, fun hpretend hfault => ?_⟩
  · obtain ⟨prepared, hrun, hfiles⟩ := Prepared.addFiles_pretend properties.files _ d
    rw [hpretend]
    exact ⟨prepared, hrun, hfiles.trans hnone⟩
  · obtain ⟨d', hrun, hfiles⟩ := Prepared.addFiles_of_fault hsorted hnew hfault
    rw [hpretend]
    refine ⟨d', hrun, hfiles.trans ?_⟩
    rw [Prepared.removeFiles, hnone]
    rfl
  · obtain ⟨prepared, d', paths, hrun, hfiles, hadds, hsorted', hundo⟩ :=
      Prepared.addFiles_of_kept hsorted hnew hfault
    rw [hpretend]
    refine ⟨prepared, d', hrun, project_sorted hproperties filesKey, hsorted', ?_, ?_⟩
    · rw [hfiles, hnone, List.nil_append]
      exact hadds
    · intro n
      refine (Disk.files_repeat_removeAll hsorted' prepared.files n).trans (hundo.trans ?_)
      rw [Prepared.removeFiles, hnone]
      rfl

theorem NamedProperties.prepare_allOrNothing_two :
    let properties : NamedProperties := [("files", .ofValue (.mapping
      [("CERT", .envelope (.string "c") [("secret", .bool true)]), ("KEY", .string "k")]))]
    let disk (fate : Nat → String → Fate) : Disk :=
      ⟨[("notes", "n")], fun n => "/tmp/esc-" ++ String.ofList (List.replicate n 'x'), fate, 0⟩
    let lost := disk fun n _ => if n = 1 then .lost else .kept
    let kept := disk fun _ _ => .kept
    (properties.WellFormed ∧ lost.GivesNewPaths ∧ kept.GivesNewPaths) ∧
      (∃ prepared, properties.prepare ⟨true, true, true⟩ lost = (.ok prepared, lost)) ∧
      (∃ d', properties.prepare ⟨true, true, false⟩ lost = (.error .keep, d') ∧
        d'.files = lost.files) ∧
      ∃ prepared d', properties.prepare ⟨true, true, false⟩ kept = (.ok prepared, d') ∧
        kept.Adds d' prepared.files ["c", "k"] ∧
        (Nat.repeat prepared.removeFiles 2 d').files = kept.files := by
  intro properties disk lost kept
  have hproperties : properties.WellFormed := ⟨by decide, by decide⟩
  have hsorted : Members.Sorted [("notes", "n")] := by decide
  have hnew (fate : Nat → String → Fate) : (disk fate).GivesNewPaths := by
    apply Disk.givesNewPaths_of_injective
    · intro m n heq
      have hlength := congrArg String.length heq
      simpa [disk] using hlength
    · intro n _ hmem
      have hlength := congrArg String.length (List.mem_singleton.mp hmem)
      simp [disk] at hlength
      have : "/tmp/esc-".length = 9 := by decide
      have : "notes".length = 5 := by decide
      omega
  have hlost := prepare_allOrNothing hproperties ⟨true, true, false⟩ (d := lost) hsorted (hnew _)
  have hkept := prepare_allOrNothing hproperties ⟨true, true, false⟩ (d := kept) hsorted (hnew _)
  refine ⟨⟨hproperties, hnew _, hnew _⟩, ?_, hlost.2.1 rfl .keep rfl, ?_⟩
  · have hpretend := prepare_allOrNothing hproperties ⟨true, true, true⟩ (d := lost) hsorted (hnew _)
    obtain ⟨prepared, hrun, -⟩ := hpretend.1 rfl
    exact ⟨prepared, hrun⟩
  · obtain ⟨prepared, d', hrun, -, -, hadds, hremove⟩ := hkept.2.2 rfl rfl
    exact ⟨prepared, d', hrun, hadds, hremove 1⟩

def NamedProperties.written (properties : Option NamedProperties) (options : EnvironmentOptions) :
    List String :=
  if options.format.isStructured ∨ options.pretend then []
  else (properties.getD []).files.map fun entry => entry.2.text

namespace NamedProperties

variable {d : Disk}

theorem write_of_unstructured (properties : Option NamedProperties) {options : EnvironmentOptions}
    (h : options.format.isStructured = false) (d : Disk) :
    ∃ prepared : Prepared, prepared.files = [] ∧ write properties options d =
      let (result, d) := prepared.addFiles options.pretend (properties.getD []).files d
      (result.map (·.render (options.format == .shell)), d) := by
  refine ⟨(properties.getD []).environment.foldl (Prepared.addVariable !options.showSecrets)
    ⟨true, [], [], []⟩, Prepared.files_foldl_addVariable _ _ _, ?_⟩
  rw [write, h, if_neg Bool.false_ne_true]
  rfl

theorem write_cases (properties : Option NamedProperties) (options : EnvironmentOptions)
    (hsorted : Members.Sorted d.files) (hnew : d.GivesNewPaths) :
    (d.firstFault? (written properties options) = none ∧
      ∃ text d', write properties options d = (.ok text, d')) ∨
    (∃ fault, d.firstFault? (written properties options) = some fault ∧
      ∃ d', write properties options d = (.error fault, d') ∧ d'.files = d.files) := by
  unfold written
  by_cases hformat : options.format.isStructured
  · rw [if_pos (.inl hformat), write, if_pos hformat]
    exact .inl ⟨rfl, _, d, rfl⟩
  obtain ⟨prepared, hfiles, hwrite⟩ :=
    write_of_unstructured properties (Bool.eq_false_iff.mpr hformat) d
  rw [hwrite]
  by_cases hpretend : options.pretend
  · obtain ⟨prepared', hrun, -⟩ :=
      Prepared.addFiles_pretend (properties.getD []).files prepared d
    rw [if_pos (.inr hpretend), hpretend, hrun]
    exact .inl ⟨rfl, _, d, rfl⟩
  rw [if_neg (not_or.mpr ⟨hformat, hpretend⟩), Bool.eq_false_iff.mpr hpretend]
  cases hfault : d.firstFault? ((properties.getD []).files.map fun entry => entry.2.text) with
  | none =>
    obtain ⟨prepared', d', paths, hrun, -⟩ :=
      Prepared.addFiles_of_kept (p := prepared) hsorted hnew hfault
    rw [hrun]
    exact .inl ⟨rfl, _, d', rfl⟩
  | some fault =>
    obtain ⟨d', hrun, hfiles'⟩ := Prepared.addFiles_of_fault (p := prepared) hsorted hnew hfault
    rw [hrun]
    refine .inr ⟨fault, rfl, d', rfl, hfiles'.trans ?_⟩
    rw [Prepared.removeFiles, hfiles]
    rfl

end NamedProperties

end EnvClient
