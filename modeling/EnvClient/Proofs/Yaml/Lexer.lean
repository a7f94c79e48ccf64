import EnvClient.Proofs.Yaml.Place
import EnvClient.Yaml.Token.Lexer

/-! Runs of the lexer on the rest of a text. A text yields some words if it does so with any fuel
that its length allows; each lemma takes one step off the front of the text, so that the words of
a text put together of parts are found part by part. -/
namespace EnvClient.Yaml.Lexer

open Input (ofChars ofChars_cons)

def before (p : Place) (u : List Char) (tokens : List Token) (columns : List Nat)
    (start : Option KeyStart) (keyAllowed : Bool) : Lexer :=
  ⟨ofChars p u, tokens, columns, start, [], keyAllowed⟩

def Yields (l : Lexer) (ts : List Token) : Prop :=
  ∀ fuel, l.rest.length < fuel → l.run fuel = some ts

variable {p : Place} {u v : List Char} {tokens ts : List Token} {columns : List Nat}
  {start : Option KeyStart} {keyAllowed : Bool}

theorem length_ofChars_place (p q : Place) (s : List Char) :
    (ofChars p s).length = (ofChars q s).length := by
  induction s generalizing p q with
  | nil => rfl
  | cons c s ih =>
    rw [ofChars, ofChars]
    split
    · exact ih _ _
    · exact congrArg (· + 1) (ih _ _)

theorem length_ofChars_append_le {s : List Char} (h : '\r' ∉ s) (p q : Place) (v : List Char) :
    (ofChars q v).length ≤ (ofChars p (s ++ v)).length := by
  rw [Input.ofChars_append h, List.length_append, length_ofChars_place q (p.past s)]
  exact Nat.le_add_left _ _

theorem run_congr {l l' : Lexer} (h : l.skip = l'.skip) (fuel : Nat) : l.run fuel = l'.run fuel := by
  cases fuel with
  | zero => rfl
  | succ fuel => rw [run, run, h]

theorem Yields.of_skip {l l' : Lexer} (hskip : l.skip = l'.skip)
    (hlength : l'.rest.length ≤ l.rest.length) (h : Yields l' ts) : Yields l ts := by
  intro fuel hfuel
  rw [run_congr hskip]
  exact h fuel (by omega)

theorem Yields.blank (h : Yields (before (p.after ' ') u tokens columns start keyAllowed) ts) :
    Yields (before p (' ' :: u) tokens columns start keyAllowed) ts := by
  refine .of_skip ?_ ?_ h
  · rw [before, ofChars_cons (by decide), skip]
    rfl
  · exact length_ofChars_append_le (s := [' ']) (by decide) _ _ _

theorem Yields.feed (h : Yields (before (p.after '\n') u tokens columns start true) ts) :
    Yields (before p ('\n' :: u) tokens columns start keyAllowed) ts := by
  refine .of_skip ?_ ?_ h
  · rw [before, ofChars_cons (by decide), skip, skipGap, if_pos (show isBreak '\n' = true by decide)]
    have hallowed : (keyAllowed || !inFlow ⟨ofChars p u, tokens, columns, start, [], true⟩) = true :=
      Bool.or_true _
    exact congrArg (fun allowed => ({ before p u tokens columns start true with
      rest := (skipGap false allowed false (ofChars (p.after '\n') u)).1
      keyAllowed := (skipGap false allowed false (ofChars (p.after '\n') u)).2 } : Lexer)) hallowed
  · exact length_ofChars_append_le (s := ['\n']) (by decide) _ _ _

theorem Yields.padding {indent : Nat}
    (h : Yields (before (p.past (pad indent)) u tokens columns start keyAllowed) ts) :
    Yields (before p (pad indent ++ u) tokens columns start keyAllowed) ts := by
  induction indent generalizing p with
  | zero => exact h
  | succ indent ih => exact .blank (ih h)

theorem skip_before (hu : Starts u) :
    (before p u tokens columns start keyAllowed).skip = before p u tokens columns start keyAllowed := by
  cases u with
  | nil => rfl
  | cons c u =>
    obtain ⟨hblank, hbreak, hhash, hmark⟩ := startsWord_iff.mp (starts_cons.mp hu)
    obtain ⟨hspace, htab⟩ : c ≠ ' ' ∧ c ≠ '\t' := by simpa [isBlank] using hblank
    have hreturn : c ≠ '\r' := by
      rintro rfl
      cases hbreak
    rw [before, ofChars_cons hreturn, skip]
    simp [skipGap, hbreak, hspace, htab, hhash, hmark]

theorem expire_before (q : Place) :
    (before p u tokens columns start keyAllowed).expire q =
      (expireStart q start).map fun start => before p u tokens columns start keyAllowed := by
  rw [expire]
  cases h : expireStart q start with
  | none => simp [before, h]
  | some start => simp [before, h]

theorem dedent_before (keep : Nat → Bool) :
    (before p u tokens columns start keyAllowed).dedent keep =
      before p u (closeColumns keep columns tokens).2 (closeColumns keep columns tokens).1 start
        keyAllowed := rfl

theorem run_before {c : Char} {fuel : Nat} (hc : startsWord c = true) :
    (before p (c :: u) tokens columns start keyAllowed).run (fuel + 1) =
      (expireStart p start).bind fun start =>
        (((before p (c :: u) tokens columns start keyAllowed).dedent (· ≤ p.column)).next ⟨c, p⟩
          (ofChars (p.after c) u)).bind (run fuel) := by
  have hreturn : c ≠ '\r' := by
    rintro rfl
    exact absurd hc (by decide)
  have hrest : (before p (c :: u) tokens columns start keyAllowed).rest =
      ⟨c, p⟩ :: ofChars (p.after c) u := ofChars_cons hreturn p u
  rw [run, skip_before (starts_cons.mpr hc)]
  simp only [hrest, expire_before, Option.bind_eq_bind, Option.bind_map]
  rfl

theorem run_before_nil {fuel : Nat} :
    (before p [] tokens columns start keyAllowed).run (fuel + 1) =
      if start.any (·.required) then none
      else some (closeColumns (fun _ => false) columns tokens).2.reverse := by
  rw [run, skip_before starts_nil]
  change (finish _) = _
  rw [finish, closeAll, dedent_before, dropStart]
  change (if start.any (·.required) then none else _ : Option Lexer).map _ = _
  split <;> rfl

/-- A collection ends before a word to the left of its column, and at the end of the text. -/
theorem Yields.close {column : Nat} (hu : Starts u) (hcolumn : u ≠ [] → p.column < column)
    (h : Yields (before p u (.blockEnd :: tokens) columns start keyAllowed) ts) :
    Yields (before p u tokens (column :: columns) start keyAllowed) ts := by
  intro fuel hfuel
  have hrun := h fuel hfuel
  cases fuel with
  | zero => cases hfuel
  | succ fuel =>
    cases u with
    | nil =>
      rw [run_before_nil] at hrun ⊢
      exact hrun
    | cons c u =>
      have hleft : ¬(decide (column ≤ p.column) = true) := by
        simpa using hcolumn (List.cons_ne_nil _ _)
      rw [run_before (starts_cons.mp hu)] at hrun ⊢
      simp only [dedent_before] at hrun ⊢
      rw [closeColumns, if_neg hleft]
      exact hrun

/-- A place where a key may have started is forgotten on a later line, unless it is required. -/
theorem Yields.forget {k : KeyStart} (hu : Starts u) (hrequired : k.required = false)
    (hline : k.place.line < p.line)
    (h : Yields (before p u tokens columns none keyAllowed) ts) :
    Yields (before p u tokens columns (some k) keyAllowed) ts := by
  intro fuel hfuel
  have hrun := h fuel hfuel
  cases fuel with
  | zero => cases hfuel
  | succ fuel =>
    cases u with
    | nil =>
      rw [run_before_nil] at hrun ⊢
      simpa [hrequired] using hrun
    | cons c u =>
      have hstale : expireStart p (some k) = expireStart p none := by
        simp [expireStart, isStale, hline, hrequired]
      rw [run_before (starts_cons.mp hu)] at hrun ⊢
      rw [hstale]
      exact hrun

/-- One word of a text, where the collections around it and the key that may have started stand. -/
theorem Yields.word {c : Char} {l' : Lexer} (hc : startsWord c = true)
    (hcolumns : ∀ m ∈ columns.head?, m ≤ p.column) (hstart : expireStart p start = some start)
    (hnext : (before p (c :: u) tokens columns start keyAllowed).next ⟨c, p⟩
      (ofChars (p.after c) u) = some l')
    (hlength : l'.rest.length ≤ (ofChars (p.after c) u).length) (h : Yields l' ts) :
    Yields (before p (c :: u) tokens columns start keyAllowed) ts := by
  intro fuel hfuel
  have hreturn : c ≠ '\r' := by
    rintro rfl
    exact absurd hc (by decide)
  cases fuel with
  | zero => cases hfuel
  | succ fuel =>
    have hkeep : closeColumns (· ≤ p.column) columns tokens = (columns, tokens) := by
      cases columns with
      | nil => rfl
      | cons m columns => rw [closeColumns, if_pos (by simpa using hcolumns m rfl)]
    rw [before, ofChars_cons hreturn, List.length_cons] at hfuel
    rw [run_before hc, hstart, Option.bind_some, dedent_before, hkeep, hnext]
    exact h fuel (by omega)

end EnvClient.Yaml.Lexer
