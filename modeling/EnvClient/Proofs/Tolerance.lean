import EnvClient.Model.Payload
import EnvClient.Proofs.Json.Conformance

/-! Payloads are read by the members that they know. Neither the order of members nor members of
other names make a difference, at whatever depth they stand. -/
namespace EnvClient

open Json (Conforms Doc Entry Fields Form Reader Tolerant)

namespace Payload

inductive Kind where
  | position
  | range
  | trace
  | record
  | diagnostic
  | environment
  | summary
  | page
  | session
  | report
  | check
  | failure
deriving DecidableEq, Repr

def evaluated : List (String × Form Kind) :=
  [("exprs", .map .any), ("properties", .map (.record .record)), ("schema", .any)]

def diagnostics : String × Form Kind := ("diagnostics", .list (.record .diagnostic))

def layout : Json.Schema Kind
  | .position => [("line", .any), ("column", .any), ("byte", .any)]
  | .range =>
    [("environment", .any), ("begin", .record .position), ("end", .record .position)]
  | .trace => [("def", .record .range), ("base", .record .record)]
  | .record => [("value", .any), ("secret", .any), ("unknown", .any), ("trace", .record .trace)]
  | .diagnostic => [("summary", .any), ("path", .any), ("range", .record .range)]
  | .environment => evaluated
  | .summary =>
    [("organization", .any), ("project", .any), ("name", .any), ("created", .any),
      ("modified", .any)]
  | .page => [("environments", .list (.record .summary)), ("nextToken", .any)]
  | .session => [("id", .any), diagnostics]
  | .report => [diagnostics]
  | .check => evaluated ++ [diagnostics]
  | .failure => [("message", .any), diagnostics]

end Payload

open Payload (layout)

theorem Position.conforms (depth : Nat) :
    Conforms layout (.record .position) (Position.read depth) :=
  (Conforms.record "Pos" (by decide) fun below _ =>
    .cons (.int32 below) <| .cons (.int32 below) <| .cons (.int32 below) .nil).bind _

theorem SourceRange.conforms (depth : Nat) :
    Conforms layout (.record .range) (SourceRange.read depth) :=
  (Conforms.record "Range" (by decide) fun below _ =>
    .cons (.string below) <| .cons (Position.conforms below) <|
      .cons (Position.conforms below) .nil).bind _

theorem Trace.conforms {ρ : Type} {base : Reader ρ}
    (h : ∀ depth, Conforms layout (.record .record) (base depth)) (depth : Nat) :
    Conforms layout (.record .trace) (Trace.read base depth) :=
  (Conforms.record "Trace" (nodup_names base) fun below _ =>
    .cons (SourceRange.conforms below).option <| .cons (h below).option .nil).bind _

namespace Record

theorem conforms_readOver {base : Reader Record}
    (h : ∀ depth, Conforms layout (.record .record) (base depth)) (depth : Nat) :
    Conforms layout (.record .record) (readOver base depth) :=
  (Conforms.record "Value" (nodup_names base) fun below _ =>
    .cons ((Conforms.json below).map Property.ofJson) <| .cons (Conforms.bool below).option <|
      .cons (Conforms.bool below).option <| .cons (Trace.conforms h below).option .nil).bind _

/-- Where the depth ends, nothing is read of a base. -/
theorem conforms : ∀ depth, Conforms layout (.record .record) (Record.read depth)
  | depth + 2 => conforms_readOver (fun _ => conforms depth) (depth + 2)
  | 0 => conforms_readOver (fun _ => .of_scalar fun _ _ h => by cases h) 0
  | 1 => conforms_readOver (fun _ => .of_scalar fun _ _ h => by cases h) 1

end Record

theorem NamedProperties.conforms (depth : Nat) :
    Conforms layout (.map (.record .record)) (NamedProperties.read depth) :=
  .mapOf fun below _ => Record.conforms below

namespace Diagnostic

theorem conforms (depth : Nat) : Conforms layout (.record .diagnostic) (Diagnostic.read depth) :=
  (Conforms.record "EnvironmentDiagnostic" (by decide) fun below _ =>
    .cons (.string below) <| .cons (Conforms.string below).option <|
      .cons (SourceRange.conforms below).option .nil).bind _

theorem conforms_readList (depth : Nat) :
    Conforms layout (.list (.record .diagnostic)) (Diagnostic.readList depth) :=
  .list fun below _ => conforms below

end Diagnostic

theorem conforms_exprs (depth : Nat) :
    Conforms layout (.map .any) (Reader.option (Reader.map Reader.json) depth) :=
  (Conforms.mapOf fun below _ => .json below).option

theorem Environment.conforms (depth : Nat) :
    Conforms layout (.record .environment) (Environment.read depth) :=
  (Conforms.record "Environment" (by decide) fun below _ =>
    .cons (conforms_exprs below) <| .cons (NamedProperties.conforms below).option <|
      .cons (Conforms.json below).option .nil).bind _

theorem Summary.conforms (depth : Nat) :
    Conforms layout (.record .summary) (Summary.read depth) :=
  (Conforms.record "OrgEnvironment" (by decide) fun below _ =>
    .cons (Conforms.string below).option <| .cons (Conforms.string below).option <|
      .cons (.string below) <| .cons (.string below) <| .cons (.string below) .nil).bind _

theorem Page.conforms (depth : Nat) : Conforms layout (.record .page) (Page.read depth) :=
  (Conforms.record "OrgEnvironments" (by decide) fun below _ =>
    .cons (.list fun below _ => Summary.conforms below) <|
      .cons (Conforms.string below).option .nil).bind _

theorem Session.conforms (depth : Nat) : Conforms layout (.record .session) (Session.read depth) :=
  (Conforms.record "OpenEnvironment" (by decide) fun below _ =>
    .cons (.string below) <| .cons (Diagnostic.conforms_readList below).option .nil).bind _

theorem Report.conforms (depth : Nat) : Conforms layout (.record .report) (Report.read depth) :=
  (Conforms.record "EnvironmentDiagnostics" (by decide) fun below _ =>
    .cons (Diagnostic.conforms_readList below).option .nil).bind _

theorem Check.conforms (depth : Nat) : Conforms layout (.record .check) (Check.read depth) :=
  (Conforms.record "CheckEnvironment" (by decide) fun below _ =>
    .cons (conforms_exprs below) <| .cons (NamedProperties.conforms below).option <|
      .cons (Conforms.json below).option <|
      .cons (Diagnostic.conforms_readList below).option .nil).bind _

theorem Failure.conforms (depth : Nat) : Conforms layout (.record .failure) (Failure.read depth) :=
  (Conforms.record "ErrorResponse" (by decide) fun below _ =>
    .cons (Conforms.string below).option <|
      .cons (Diagnostic.conforms_readList below).option .nil).bind _

/-- The text of a payload may be replaced by that of any rearrangement of it. -/
theorem payloads_tolerant :
    Tolerant layout (.record .record) Record.read ∧
      Tolerant layout (.record .environment) Environment.read ∧
      Tolerant layout (.record .page) Page.read ∧
      Tolerant layout (.record .session) Session.read ∧
      Tolerant layout (.record .report) Report.read ∧
      Tolerant layout (.record .check) Check.read ∧
      Tolerant layout (.record .failure) Failure.read :=
  ⟨(Record.conforms _).tolerant, (Environment.conforms _).tolerant, (Page.conforms _).tolerant,
    (Session.conforms _).tolerant, (Report.conforms _).tolerant, (Check.conforms _).tolerant,
    (Failure.conforms _).tolerant⟩

/-- Members change places in a map and in a record, and others are added to the environment and
to the record at the bottom of a trace. -/
theorem payloads_tolerant_mixed :
    let text := "\x7b\"properties\":\x7b\"b\":\x7b\"value\":1," ++
      "\"trace\":\x7b\"base\":\x7b\x7d\x7d\x7d,\"a\":\x7b\"secret\":true\x7d\x7d\x7d"
    let text' := "\x7b\"next\":[1e999,\"\\ud800\"],\"properties\":\x7b" ++
      "\"a\":\x7b\"secret\":true\x7d," ++
      "\"b\":\x7b\"trace\":\x7b\"base\":\x7b\"x\":\x7b\x7d\x7d\x7d,\"value\":1\x7d\x7d\x7d"
    ∃ e, Json.decode Environment.read text = .ok e ∧
      Json.decode Environment.read text' = .ok e := by
  intro text text'
  let value : Entry := (some "value", .number (some (.int 1 (by decide))))
  let base : Entry := (some "base", .object (.ofEntries []))
  let base' : Entry := (some "base", .object (.ofEntries [(some "x", .object .done)]))
  let a : Entry := (some "a", .object (.ofEntries [(some "secret", .bool true)]))
  let trace : Entry := (some "trace", .object (.ofEntries [base]))
  let trace' : Entry := (some "trace", .object (.ofEntries [base']))
  let b : Entry := (some "b", .object (.ofEntries [value, trace]))
  let b' : Entry := (some "b", .object (.ofEntries [trace', value]))
  let next : Entry := (some "next", .array (.item (.number none) (.item (.string none) .done)))
  let doc : Doc := .object (.ofEntries [(some "properties", .object (.ofEntries [b, a]))])
  let doc' : Doc := .object (.ofEntries [next, (some "properties", .object (.ofEntries [a, b']))])
  have htext : Doc.ofText text.toList = (doc, false) := by decide +kernel
  have htext' : doc'.WholeText text' := Doc.wholeText_iff.mpr ⟨by decide +kernel, by rfl⟩
  have hx : "x" ∉ Members.names (layout .record) := by decide
  have hbase : Doc.Rearranged layout (.record .record) base.2 base'.2 :=
    .of_insert [] [] hx
  have htrace : Doc.Rearranged layout (.record .trace) trace.2 trace'.2 :=
    .object (.cons hbase .nil) (Entry.extends_of_perm (.refl _))
  have hb : Doc.Rearranged layout (.record .record) b.2 b'.2 :=
    .object (.cons .same (.cons htrace .nil)) (Entry.extends_of_perm (.swap _ _ _))
  have hproperties : Doc.Rearranged layout (.map (.record .record)) (.object (.ofEntries [b, a]))
      (.object (.ofEntries [a, b'])) :=
    .object (.cons hb (.cons .same .nil)) (Entry.extends_of_perm (.swap _ _ _))
  have hdoc : Doc.Rearranged layout (.record .environment) doc doc' := by
    refine .object (.cons hproperties .nil) ⟨[next], ?_, .swap _ _ _⟩
    exact List.forall_mem_singleton.mpr ⟨"next", rfl, by decide⟩
  have hdecode : Environment.toJson <$> Json.decode Environment.read text = .ok (.object [
      ("properties", .object [
        ("a", .object [("value", .null), ("secret", .bool true)]),
        ("b", .object [("value", .ofInt32 1), ("trace", .object [
          ("base", .object [("value", .null)])])])])]) := by decide +kernel
  obtain ⟨e, he, -⟩ := Json.Result.map_eq_ok.mp hdecode
  obtain ⟨-, henvironment, -⟩ := payloads_tolerant
  obtain ⟨found, hfound, htolerant⟩ := henvironment text e he
  have heq : found = doc := congrArg Prod.fst ((Doc.wholeText_iff.mp hfound).1.symm.trans htext)
  have hdistinct : doc.Distinct := by
    simp [doc, a, b, value, trace, base, Doc.Distinct]
  exact ⟨e, he, htolerant (heq ▸ hdistinct) doc' text' (heq ▸ hdoc) htext'⟩

end EnvClient
