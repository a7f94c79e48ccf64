import EnvClient.Api
import EnvClient.Proofs.Text.Utf8

/-! Which settings a client can be made of. Its token and its user agent have to be values of
headers, which is a matter of their bytes. An unusable user agent is reported as a fault of
transport, as if a request had been sent. -/
namespace EnvClient

namespace Http

/-- Bytes that the value of a header may hold: tabs, and whatever is no control character of
ASCII. -/
def IsHeaderByte (b : UInt8) : Prop := b.toNat = 0x09 ∨ 0x20 ≤ b.toNat ∧ b.toNat ≠ 0x7F

def IsHeaderValue (s : String) : Prop := ∀ b ∈ Text.Utf8.encode s, IsHeaderByte b

theorem isHeaderChar_iff_toNat (c : Char) :
    isHeaderChar c = true ↔ c.toNat = 0x09 ∨ 0x20 ≤ c.toNat ∧ c.toNat ≠ 0x7F := by
  have hle : ' ' ≤ c ↔ 0x20 ≤ c.toNat := Iff.rfl
  have hdelete : c = '\x7f' ↔ c.toNat = 0x7F := Char.toNat_inj.symm
  have htab : c = '\t' ↔ c.toNat = 0x09 := Char.toNat_inj.symm
  simp only [isHeaderChar, Bool.or_eq_true, Bool.and_eq_true, decide_eq_true_eq, bne_iff_ne,
    beq_iff_eq, ne_eq, hle, hdelete, htab]
  exact or_comm

/-- A character of ASCII is its own byte, and no byte of another is a control character. -/
theorem isHeaderChar_iff (c : Char) :
    isHeaderChar c = true ↔ ∀ b ∈ String.utf8EncodeChar c, IsHeaderByte b := by
  rw [isHeaderChar_iff_toNat]
  by_cases hascii : c.toNat < 0x80
  · rw [Text.Utf8.utf8EncodeChar_ascii hascii, List.forall_mem_singleton, IsHeaderByte,
      UInt8.toNat_ofNat_of_lt' (by omega : c.toNat < 256)]
  · refine iff_of_true (by omega) fun b hb => ?_
    have hle := Text.Utf8.le_of_mem_utf8EncodeChar (Nat.le_of_not_lt hascii) hb
    rw [IsHeaderByte]
    omega

theorem isHeaderText_iff (s : String) : isHeaderText s = true ↔ IsHeaderValue s := by
  rw [isHeaderText, List.all_eq_true, IsHeaderValue, Text.Utf8.encode_eq_flatMap]
  simp only [isHeaderChar_iff, List.mem_flatMap]
  exact ⟨fun h b ⟨c, hc, hb⟩ => h c hc b hb, fun h c hc b hb => h b ⟨c, hc, hb⟩⟩

end Http

open Http (IsHeaderValue isHeaderText isHeaderText_iff)

namespace Configuration

/-- What is sent of the token, if there is one, is the value of a header. -/
def TokenUsable (c : Configuration) : Prop := ∀ token ∈ c.token, IsHeaderValue ("token " ++ token)

def AgentUsable (c : Configuration) : Prop := IsHeaderValue c.userAgent

theorem tokenUsable_iff (c : Configuration) :
    c.TokenUsable ↔ (c.token.map ("token " ++ ·)).any (!isHeaderText ·) = false := by
  cases h : c.token with
  | none => exact iff_of_true (by simp [TokenUsable, h]) rfl
  | some token => simp [TokenUsable, h, isHeaderText_iff]

end Configuration

namespace Api

variable {c : Configuration}

theorem ofConfiguration_of_not_tokenUsable (h : ¬ c.TokenUsable) :
    ∃ message, ofConfiguration c = .error (.config message) := by
  rw [c.tokenUsable_iff, Bool.not_eq_false] at h
  exact ⟨_, if_pos h⟩

theorem ofConfiguration_of_not_agentUsable (htoken : c.TokenUsable) (hagent : ¬ c.AgentUsable) :
    ofConfiguration c = .error (.transport .userAgent) := by
  rw [c.tokenUsable_iff] at htoken
  rw [Configuration.AgentUsable, ← isHeaderText_iff, Bool.not_eq_true] at hagent
  rw [ofConfiguration]
  simp only [htoken, hagent]
  rfl

theorem ofConfiguration_of_usable (htoken : c.TokenUsable) (hagent : c.AgentUsable) :
    ∃ api, ofConfiguration c = .ok api := by
  rw [c.tokenUsable_iff] at htoken
  rw [Configuration.AgentUsable, ← isHeaderText_iff] at hagent
  rw [ofConfiguration]
  simp only [htoken, hagent]
  exact ⟨_, rfl⟩

/-- A client is made of settings just if their token and their user agent are values of headers.
The token is looked at first; only a token is reported as an error of the settings. -/
theorem ofConfiguration_exact (c : Configuration) :
    ((∃ api, ofConfiguration c = .ok api) ↔ c.TokenUsable ∧ c.AgentUsable) ∧
      ((∃ message, ofConfiguration c = .error (.config message)) ↔ ¬ c.TokenUsable) ∧
      (ofConfiguration c = .error (.transport .userAgent) ↔ c.TokenUsable ∧ ¬ c.AgentUsable) ∧
      ∀ e, ofConfiguration c = .error e →
        (∃ message, e = .config message) ∨ e = .transport .userAgent := by
  by_cases htoken : c.TokenUsable
  · by_cases hagent : c.AgentUsable
    · obtain ⟨api, heq⟩ := ofConfiguration_of_usable htoken hagent
      simp [heq, htoken, hagent]
    · simp [ofConfiguration_of_not_agentUsable htoken hagent, htoken, hagent]
  · obtain ⟨message, heq⟩ := ofConfiguration_of_not_tokenUsable htoken
    simp [heq, htoken]

/-- A variable may hold a user agent with a line break, which is not blank. -/
theorem ofConfiguration_brokenAgent :
    let c := Configuration.ofVariables fun name =>
      if name = Configuration.userAgentVariable then some "bad\nagent" else none
    ofConfiguration c = .error (.transport .userAgent) ∧
      ¬ ∃ message, ofConfiguration c = .error (.config message) := by
  intro c
  have htoken : c.TokenUsable := c.tokenUsable_iff.mpr (by decide +kernel)
  have hagent : ¬ c.AgentUsable := by
    rw [Configuration.AgentUsable, ← isHeaderText_iff]
    decide +kernel
  have hfault := ofConfiguration_of_not_agentUsable htoken hagent
  refine ⟨hfault, fun ⟨message, h⟩ => ?_⟩
  rw [hfault] at h
  cases h

end Api
end EnvClient
