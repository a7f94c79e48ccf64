import EnvClient.Yaml.Token.Tag

/-! The words that a YAML text is made of. Block collections, which indentation opens and
closes, have words of their own. -/
namespace EnvClient.Yaml

inductive Token where
  | directive (d : Token.Directive)
  | documentStart
  | documentEnd
  | blockSequence
  | blockMapping
  | blockEnd
  | flowSequence
  | flowSequenceEnd
  | flowMapping
  | flowMappingEnd
  | entry
  | comma
  | key
  | value
  | reference (name : String)
  | anchor (name : String)
  | tag (name : Token.TagName)
  | scalar (plain : Bool) (text : String)
deriving DecidableEq, Repr

end EnvClient.Yaml
