import EnvClient.Proofs.Modes
import EnvClient.Proofs.Text.Pieces

/-! Rendered environments read back. A value is quoted on one line whatever it holds, so lines are
assignments unless a name breaks one. -/
namespace EnvClient

namespace Json

theorem hexDigit_not_lt {d : Nat} (h : d < 16) : ¬ hexDigit d < ' ' := by
  have hall : ∀ d : Fin 16, ¬ hexDigit d < ' ' := by decide
  exact hall ⟨d, h⟩

theorem escapeChar_not_lt (c : Char) : ∀ d ∈ escapeChar c, ¬ d < ' ' := by
  have hpair {e : Char} (he : ¬ e < ' ') : ∀ d ∈ ['\\', e], ¬ d < ' ' := by
    rw [List.forall_mem_cons, List.forall_mem_singleton]
    exact ⟨by decide, he⟩
  unfold escapeChar
  split_ifs with hquote hbackslash hback htab hline hfeed hreturn hcontrol
  · exact hpair (by decide)
  · exact hpair (by decide)
  · exact hpair (by decide)
  · exact hpair (by decide)
  · exact hpair (by decide)
  · exact hpair (by decide)
  · exact hpair (by decide)
  · have hlt : c.toNat < 32 := hcontrol
    simp only [List.forall_mem_cons]
    exact ⟨by decide, by decide, by decide, by decide, hexDigit_not_lt (by omega),
      hexDigit_not_lt (by omega), nofun⟩
  · exact List.forall_mem_singleton.mpr hcontrol

theorem quote_not_lt (s : String) : ∀ c ∈ (quote s).toList, ¬ c < ' ' := by
  rw [quote, String.toList_ofList, quoteChars, List.forall_mem_cons, List.forall_mem_append,
    List.forall_mem_singleton]
  refine ⟨by decide, fun c hc => ?_, by decide⟩
  obtain ⟨d, -, hd⟩ := List.mem_flatMap.mp hc
  exact escapeChar_not_lt d c hd

end Json

namespace Prepared

def exportMark (isExport : Bool) : String := if isExport then "export " else ""

/-- The variable that a line of quoted values sets, split off at the first equals sign. -/
def readLine? (isExport : Bool) (line : String) : Option (String × String) := do
  let pair ← line.toList.dropPrefix? (exportMark isExport).toList
  match pair.span (· != '=') with
  | (name, _ :: text) => return (String.ofList name, ← unquote? true (String.ofList text))
  | (_, []) => none

theorem toList_pair_true (assignment : String × String) : (pair true assignment).toList =
    assignment.1.toList ++ '=' :: (Json.quote assignment.2).toList := by
  simp [pair]

theorem newline_mem_pair {assignment : String × String} (isExport : Bool) :
    '\n' ∈ (exportMark isExport ++ pair true assignment).toList ↔ '\n' ∈ assignment.1.toList := by
  have hmark : '\n' ∉ (exportMark isExport).toList := by cases isExport <;> decide
  have hquote : '\n' ∉ (Json.quote assignment.2).toList := fun hmem =>
    Json.quote_not_lt _ _ hmem (by decide)
  simp [toList_pair_true, hmark, hquote]

theorem readLine?_pair {assignment : String × String} (h : '=' ∉ assignment.1.toList)
    (isExport : Bool) :
    readLine? isExport (exportMark isExport ++ pair true assignment) = some assignment := by
  obtain ⟨name, value⟩ := assignment
  have hspan : (name.toList ++ '=' :: (Json.quote value).toList).span (· != '=') =
      (name.toList, '=' :: (Json.quote value).toList) := by
    have hname : ∀ c ∈ name.toList, (c != '=') = true := fun c hc =>
      bne_iff_ne.mpr fun heq => h (heq ▸ hc)
    rw [List.span_eq_takeWhile_dropWhile, List.takeWhile_append_of_pos hname,
      List.dropWhile_append_of_pos hname]
    simp
  have hvalue : unquote? true (Json.quote value) = some value := unquote?_quote true value
  rw [readLine?, String.toList_append, List.dropPrefix?_append_of_beq _ BEq.rfl,
    toList_pair_true]
  simp only [Option.bind_eq_bind, Option.bind_some, hspan, String.ofList_toList, hvalue]
  rfl

theorem render_eq (p : Prepared) (isExport : Bool) : p.render isExport = String.ofList
    ((p.environ.map fun pair => (exportMark isExport ++ pair).toList).flatMap
      fun line => line ++ ['\n']) := by
  apply String.toList_injective
  rw [render, String.toList_join, String.toList_ofList, List.flatMap_map, List.flatMap_map]
  simp [exportMark]

theorem lines?_render {p : Prepared} (hquote : p.quote = true) (isExport : Bool) :
    (∃ lines, Text.lines? (p.render isExport) = some lines ∧ lines.length = p.environ.length) ↔
      ∀ assignment ∈ p.assignments, '\n' ∉ assignment.1.toList := by
  have hlength : (p.environ.map fun pair => (exportMark isExport ++ pair).toList).length =
      p.environ.length := List.length_map _
  rw [render_eq, Text.lines?_ended, ← hlength]
  simp only [Option.some.injEq, exists_eq_left', List.length_map]
  rw [← hlength, Text.length_flatMap_splitAt_eq_iff, environ, hquote, List.map_map,
    List.forall_mem_map]
  exact forall₂_congr fun assignment _ => not_congr (newline_mem_pair isExport)

theorem mapM_readLine?_render {p : Prepared} (hquote : p.quote = true) (isExport : Bool)
    (hnames : ∀ assignment ∈ p.assignments,
      '\n' ∉ assignment.1.toList ∧ '=' ∉ assignment.1.toList) :
    ∃ lines, Text.lines? (p.render isExport) = some lines ∧
      lines.mapM (readLine? isExport) = some p.assignments := by
  refine ⟨p.environ.map (exportMark isExport ++ ·), ?_, ?_⟩
  · rw [render_eq, Text.lines?_ended, Text.flatMap_splitAt_of_not_mem]
    · simp
    · rw [environ, hquote, List.map_map, List.forall_mem_map]
      exact fun assignment hmem => (newline_mem_pair isExport).not.mpr (hnames assignment hmem).1
  · rw [environ, hquote, List.map_map]
    exact Text.mapM_map_of_reads fun assignment hmem =>
      readLine?_pair (hnames assignment hmem).2 isExport

end Prepared

namespace NamedProperties

theorem names_assigned {properties : NamedProperties} {options : PrepareOptions} {d d' : Disk}
    {p : Prepared} (h : properties.prepare options d = (.ok p, d')) :
    Members.names p.assignments =
      Members.names properties.environment ++ Members.names properties.files := by
  rw [(prepare_eq_ok h).1, assigned, Members.names, List.map_append, ← Members.names,
    Members.names_mapValues]
  congr 1
  apply List.map_fst_zip
  refine Nat.le_of_eq ?_
  rw [length_shownPaths h, Members.names, List.length_map]

/-- Quoted assignments are one a line exactly if no name holds the end of a line. If none holds an
equals sign either, they are read back line by line, whatever the values are. -/
theorem render_reads_back {properties : NamedProperties} {options : PrepareOptions} {d d' : Disk}
    {p : Prepared} (hquote : options.quote = true)
    (h : properties.prepare options d = (.ok p, d')) (isExport : Bool) :
    let names := Members.names properties.environment ++ Members.names properties.files
    ((∃ lines, Text.lines? (p.render isExport) = some lines ∧
      lines.length = p.environ.length) ↔ ∀ name ∈ names, '\n' ∉ name.toList) ∧
    ((∀ name ∈ names, '\n' ∉ name.toList ∧ '=' ∉ name.toList) →
      ∃ lines, Text.lines? (p.render isExport) = some lines ∧
        lines.mapM (Prepared.readLine? isExport) = some (properties.assigned options p.files)) := by
  have hp := (prepare_eq_ok h).1
  have hquoted : p.quote = true := (congrArg Prepared.quote hp).trans hquote
  have hassigned : p.assignments = properties.assigned options p.files :=
    congrArg Prepared.assignments hp
  rw [← names_assigned h, ← hassigned]
  unfold Members.names
  simp only [List.forall_mem_map]
  exact ⟨Prepared.lines?_render hquoted isExport, Prepared.mapM_readLine?_render hquoted isExport⟩

theorem render_reads_back_escaped :
    let properties : NamedProperties := [
      ("environmentVariables", .ofValue (.mapping [("KEY", .string "a=\"b\"\\\n\x01é")])),
      ("files", .ofValue (.mapping [("CERT", .string "c")]))]
    let broken : NamedProperties :=
      [("environmentVariables", .ofValue (.mapping [("A=1\nB", .string "2")]))]
    let d : Disk := ⟨[], fun n => String.ofList (List.replicate n 'x'), fun _ _ => .kept, 0⟩
    ∃ p q, properties.prepare ⟨true, false, true⟩ d = (.ok p, d) ∧
      broken.prepare ⟨true, false, true⟩ d = (.ok q, d) ∧
      (∃ lines, Text.lines? (p.render true) = some lines ∧
        lines.mapM (Prepared.readLine? true) =
          some [("KEY", "a=\"b\"\\\n\x01é"), ("CERT", "[unknown]")]) ∧
      ¬ ∃ lines, Text.lines? (q.render true) = some lines ∧ lines.length = q.environ.length := by
  intro properties broken d
  refine ⟨_, _, rfl, rfl, ?_, fun hlines => ?_⟩
  · have hprepare : properties.prepare ⟨true, false, true⟩ d = (.ok _, d) := rfl
    exact (render_reads_back rfl hprepare true).2 (by decide)
  · have hprepare : broken.prepare ⟨true, false, true⟩ d = (.ok _, d) := rfl
    have hnames := (render_reads_back rfl hprepare true).1.mp hlines
    exact absurd (hnames "A=1\nB" (by decide)) (by decide)

end NamedProperties
end EnvClient
