import EnvClient.Api
import EnvClient.Proofs.Text.Pieces
import EnvClient.Proofs.Url.Percent

/-! Paths that are put together of segments, and what reading a URL leaves of them. A backslash
ends a segment, and the names `.` and `..` are no segments; nothing else of a segment is lost. -/
namespace EnvClient.Url

open Text (splitAt)

def segmentByte (b : UInt8) : List Char :=
  if isSegmentSpecial b then escapeByte b else [Char.ofNat b.toNat]

theorem encodeSegment_eq (s : String) :
    encodeSegment s = (Text.Utf8.encode s).flatMap segmentByte := rfl

theorem encodeSegment_eq_flatMap (s : String) : encodeSegment s =
    s.toList.flatMap fun c => (String.utf8EncodeChar c).flatMap segmentByte := by
  rw [encodeSegment_eq, Text.Utf8.encode_eq_flatMap, List.flatMap_assoc]

theorem encodeSegment_ofList_append (a b : List Char) :
    encodeSegment (String.ofList (a ++ b)) =
      encodeSegment (String.ofList a) ++ encodeSegment (String.ofList b) := by
  simp only [encodeSegment_eq_flatMap, String.toList_ofList, List.flatMap_append]

theorem encodeSegment_empty : encodeSegment "" = [] := by
  rw [encodeSegment_eq_flatMap]
  rfl

def isSegmentText (c : Char) : Bool :=
  ' ' < c && c.toNat < 0x80 && c != '/' && c != '?' && c != '#' &&
    !isPathSpecial (UInt8.ofNat c.toNat)

theorem isSegmentText_encodeSegment (s : String) :
    ∀ c ∈ encodeSegment s, isSegmentText c = true := by
  have hbyte : ∀ b : UInt8, (segmentByte b).all isSegmentText = true :=
    forall_byte (by decide +kernel)
  intro c hmem
  obtain ⟨b, _, hb⟩ := List.mem_flatMap.mp hmem
  exact List.all_eq_true.mp (hbyte b) c hb

theorem encodeSegment_injective {s t : String} (h : encodeSegment s = encodeSegment t) : s = t := by
  have := decodeSegment?_encodeSegment s
  rw [h, decodeSegment?_encodeSegment] at this
  exact (Option.some.inj this).symm

theorem escapeText_encodeSegment (s : String) :
    escapeText isPathSpecial (encodeSegment s) = String.ofList (encodeSegment s) := by
  rw [escapeText, escape, Text.Utf8.encode_eq_flatMap, String.toList_ofList]
  congr 1
  generalize hchars : encodeSegment s = chars
  have hall := hchars ▸ isSegmentText_encodeSegment s
  clear hchars
  induction chars with
  | nil => rfl
  | cons c rest ih =>
    obtain ⟨hc, hrest⟩ := List.forall_mem_cons.mp hall
    simp only [isSegmentText, Bool.and_eq_true, decide_eq_true_eq, Bool.not_eq_true'] at hc
    rw [List.flatMap_cons, List.flatMap_append, ih hrest,
      Text.Utf8.utf8EncodeChar_ascii (by omega), List.flatMap_singleton,
      if_neg (by rw [hc.2]; exact Bool.false_ne_true), List.singleton_append,
      UInt8.toNat_ofNat_of_lt' (by omega : c.toNat < 256), Char.ofNat_toNat]

theorem undot_cons {c : Char} (h : c ≠ '%') (rest : List Char) :
    undot (c :: rest) = c :: undot rest := by
  rw [undot]
  intro e rest' hc
  exact absurd hc h

/-- A dot is never escaped, so no escape stands for one. -/
private theorem escapeByte_ne_dot : ∀ b : UInt8, isSegmentSpecial b = true →
    let high := Text.upperDigit (b.toNat / 16)
    let low := Text.upperDigit (b.toNat % 16)
    high ≠ '%' ∧ low ≠ '%' ∧ (high = '2' → ¬(low = 'e' ∨ low = 'E')) :=
  forall_byte (by decide +kernel)

theorem undot_segmentByte (b : UInt8) (rest : List Char) :
    undot (segmentByte b ++ rest) = segmentByte b ++ undot rest := by
  unfold segmentByte
  split
  · rename_i hb
    obtain ⟨hhigh, hlow, hdot⟩ := escapeByte_ne_dot b hb
    rw [escapeByte_eq]
    simp only [List.cons_append, List.nil_append]
    by_cases htwo : Text.upperDigit (b.toNat / 16) = '2'
    · rw [htwo, undot, if_neg (hdot htwo)]
    · rw [undot, undot_cons hhigh, undot_cons hlow]
      intro e rest' _ htail
      exact absurd (List.cons.inj htail).1 htwo
  · rename_i hb
    obtain ⟨hascii, hne⟩ := plainByte_bounds b (Bool.eq_false_iff.mpr hb)
    exact undot_cons (ofNat_ne_percent hascii hne) rest

theorem undot_encodeSegment (s : String) : undot (encodeSegment s) = encodeSegment s := by
  rw [encodeSegment_eq]
  induction Text.Utf8.encode s with
  | nil => rfl
  | cons b rest ih => rw [List.flatMap_cons, undot_segmentByte, ih]

theorem isDot_encodeSegment (s : String) : isDot (encodeSegment s) = decide (s = ".") := by
  have hdot : encodeSegment "." = ['.'] := by
    rw [encodeSegment_eq_flatMap]
    rfl
  rw [isDot, undot_encodeSegment, ← hdot, Bool.beq_eq_decide_eq]
  exact decide_eq_decide.mpr ⟨encodeSegment_injective, congrArg encodeSegment⟩

theorem isDoubleDot_encodeSegment (s : String) :
    isDoubleDot (encodeSegment s) = decide (s = "..") := by
  have hdots : encodeSegment ".." = ['.', '.'] := by
    rw [encodeSegment_eq_flatMap]
    rfl
  rw [isDoubleDot, undot_encodeSegment, ← hdots, Bool.beq_eq_decide_eq]
  exact decide_eq_decide.mpr ⟨encodeSegment_injective, congrArg encodeSegment⟩

/-- The names that a segment is taken for: those between its backslashes. -/
def parts (segment : String) : List String := (splitAt '\\' segment.toList).map String.ofList

theorem splitSlashes_ne_nil (s : List Char) : splitSlashes s ≠ [] := by
  fun_cases splitSlashes s <;> simp_all

theorem splitSlashes_append {piece : List Char} (h : ∀ c ∈ piece, isSlash c = false)
    (rest : List Char) :
    splitSlashes (piece ++ rest) = match splitSlashes rest with
      | next :: pieces => (piece ++ next) :: pieces
      | [] => [piece] := by
  induction piece with
  | nil =>
    cases hrest : splitSlashes rest with
    | nil => exact absurd hrest (splitSlashes_ne_nil rest)
    | cons next pieces => rw [List.nil_append, hrest]; rfl
  | cons d piece ih =>
    obtain ⟨hd, hpiece⟩ := List.forall_mem_cons.mp h
    rw [List.cons_append, splitSlashes, if_neg (Bool.eq_false_iff.mp hd), ih hpiece]
    cases hrest : splitSlashes rest with
    | nil => exact absurd hrest (splitSlashes_ne_nil rest)
    | cons next pieces => rfl

theorem splitSlashes_append_slash (s rest : List Char) :
    splitSlashes (s ++ '/' :: rest) = splitSlashes s ++ splitSlashes rest := by
  induction s with
  | nil => rfl
  | cons c s ih =>
    rw [List.cons_append, splitSlashes, splitSlashes, ih]
    split
    · rfl
    · cases hs : splitSlashes s with
      | nil => exact absurd hs (splitSlashes_ne_nil s)
      | cons piece pieces => rfl

private theorem segmentByte_not_slash : ∀ b : UInt8, b ≠ 0x5C →
    (segmentByte b).any isSlash = false :=
  forall_byte (by decide +kernel)

theorem encodeSegment_singleton (c : Char) :
    encodeSegment (String.ofList [c]) = (String.utf8EncodeChar c).flatMap segmentByte := by
  rw [encodeSegment_eq_flatMap, String.toList_ofList, List.flatMap_singleton]

theorem not_isSlash_encodeChar {c : Char} (h : c ≠ '\\') :
    ∀ d ∈ encodeSegment (String.ofList [c]), isSlash d = false := by
  intro d hmem
  rw [encodeSegment_singleton] at hmem
  obtain ⟨b, hb, hd⟩ := List.mem_flatMap.mp hmem
  refine Bool.eq_false_iff.mpr (List.any_eq_false.mp (segmentByte_not_slash b ?_) d hd)
  rintro rfl
  by_cases hascii : c.toNat < 0x80
  · rw [Text.Utf8.utf8EncodeChar_ascii hascii, List.mem_singleton] at hb
    have hcode : c.toNat = 0x5C := by
      rw [← UInt8.toNat_ofNat_of_lt' (by omega : c.toNat < 256), ← hb]
      rfl
    exact h (Char.toNat_inj.mp hcode)
  · exact absurd (Text.Utf8.le_of_mem_utf8EncodeChar (by omega) hb) (by decide)

theorem splitSlashes_encodeSegment (s : String) :
    splitSlashes (encodeSegment s) = (parts s).map encodeSegment := by
  have hbackslash : encodeSegment (String.ofList ['\\']) = ['\\'] := by
    rw [encodeSegment_singleton]
    rfl
  rw [← String.ofList_toList (s := s), parts, String.toList_ofList]
  induction s.toList with
  | nil =>
    change splitSlashes (encodeSegment "") = [encodeSegment ""]
    rw [encodeSegment_empty]
    rfl
  | cons c rest ih =>
    rw [← List.singleton_append, encodeSegment_ofList_append, List.singleton_append, splitAt]
    split
    · rename_i heq
      rw [heq, hbackslash, List.singleton_append, splitSlashes, if_pos (by decide), ih,
        List.map_cons, List.map_cons, String.ofList_nil, encodeSegment_empty]
    · rename_i hne
      rw [splitSlashes_append (not_isSlash_encodeChar hne), ih]
      cases hrest : splitAt '\\' rest with
      | nil => exact absurd hrest (Text.splitAt_ne_nil _ rest)
      | cons piece pieces =>
        have happend := encodeSegment_ofList_append [c] piece
        simp only [List.map_cons, ← happend]
        rfl

theorem splitSlashes_append_pathChars (s : List Char) (segments : List String) :
    splitSlashes (s ++ Api.pathChars segments) =
      splitSlashes s ++ (segments.flatMap parts).map encodeSegment := by
  unfold Api.pathChars
  induction segments generalizing s with
  | nil => simp
  | cons segment rest ih =>
    rw [List.flatMap_cons, List.cons_append, splitSlashes_append_slash, ih,
      splitSlashes_encodeSegment, List.flatMap_cons, List.map_append]

/-- The names that are left, the last one first, once dots are taken out. -/
def resolveNames (kept : List String) : List String → List String
  | [] => kept
  | name :: rest =>
    if name = ".." then
      resolveNames (if rest.isEmpty then "" :: kept.drop 1 else kept.drop 1) rest
    else if name = "." then resolveNames (if rest.isEmpty then "" :: kept else kept) rest
    else resolveNames (name :: kept) rest

def encodeName (name : String) : String := String.ofList (encodeSegment name)

theorem encodeName_empty : encodeName "" = "" := by
  rw [encodeName, encodeSegment_empty, String.ofList_nil]

theorem addPieces_map_encodeSegment (kept names : List String) :
    addPieces (kept.map encodeName) (names.map encodeSegment) =
      (resolveNames kept names).map encodeName := by
  induction names generalizing kept with
  | nil => rfl
  | cons name rest ih =>
    rw [List.map_cons, addPieces, resolveNames, isDoubleDot_encodeSegment, isDot_encodeSegment,
      escapeText_encodeSegment, List.isEmpty_map]
    simp only [decide_eq_true_eq]
    split
    · rw [← ih]
      congr 1
      split <;> simp [encodeName_empty]
    split
    · rw [← ih]
      congr 1
      split <;> simp [encodeName_empty]
    · rw [← ih]
      rfl

/-- A name that stands for itself in a path. -/
def IsPlain (segment : String) : Prop :=
  segment ≠ "." ∧ segment ≠ ".." ∧ '\\' ∉ segment.toList

instance : DecidablePred IsPlain := fun _ => inferInstanceAs (Decidable (_ ∧ _ ∧ _))

theorem parts_of_isPlain {segment : String} (h : IsPlain segment) : parts segment = [segment] := by
  rw [parts, Text.splitAt_of_not_mem h.2.2, List.map_singleton, String.ofList_toList]

theorem flatMap_parts_of_isPlain {segments : List String}
    (h : ∀ segment ∈ segments, IsPlain segment) : segments.flatMap parts = segments := by
  induction segments with
  | nil => rfl
  | cons segment rest ih =>
    obtain ⟨hfirst, hrest⟩ := List.forall_mem_cons.mp h
    rw [List.flatMap_cons, parts_of_isPlain hfirst, ih hrest, List.singleton_append]

theorem resolveNames_of_isPlain {names : List String} (h : ∀ name ∈ names, IsPlain name)
    (kept : List String) : resolveNames kept names = names.reverse ++ kept := by
  induction names generalizing kept with
  | nil => rfl
  | cons name rest ih =>
    obtain ⟨hfirst, hrest⟩ := List.forall_mem_cons.mp h
    rw [resolveNames, if_neg hfirst.2.1, if_neg hfirst.1, ih hrest, List.reverse_cons,
      List.append_assoc, List.singleton_append]

theorem not_mem_of_mem_parts {segment name : String} (h : name ∈ parts segment) :
    '\\' ∉ name.toList := by
  obtain ⟨piece, hpiece, rfl⟩ := List.mem_map.mp h
  rw [String.toList_ofList]
  exact Text.not_mem_of_mem_splitAt hpiece

theorem isPlain_resolveNames {names kept : List String}
    (hnames : ∀ name ∈ names, '\\' ∉ name.toList) (hkept : ∀ name ∈ kept, IsPlain name) :
    ∀ name ∈ resolveNames kept names, IsPlain name := by
  have hempty : IsPlain "" := by decide
  induction names generalizing kept with
  | nil => exact hkept
  | cons name rest ih =>
    obtain ⟨hfirst, hrest⟩ := List.forall_mem_cons.mp hnames
    have hdrop : ∀ name ∈ kept.drop 1, IsPlain name := fun name hmem =>
      hkept name (List.mem_of_mem_drop hmem)
    rw [resolveNames]
    split
    · refine ih hrest ?_
      split
      · exact List.forall_mem_cons.mpr ⟨hempty, hdrop⟩
      · exact hdrop
    rename_i hdots
    split
    · refine ih hrest ?_
      split
      · exact List.forall_mem_cons.mpr ⟨hempty, hkept⟩
      · exact hkept
    · rename_i hdot
      exact ih hrest (List.forall_mem_cons.mpr ⟨⟨hdot, hdots, hfirst⟩, hkept⟩)

/-- A scheme and a host, with or without a port, and nothing after them. -/
def IsOrigin (backend : String) : Prop :=
  ∃ scheme written, (scheme = "http" ∨ scheme = "https") ∧
    backend.toList = scheme.toList ++ ':' :: '/' :: '/' :: written ∧
    (∀ c ∈ written, ' ' < c ∧ endsAuthority c = false) ∧ (authority? scheme written).isSome

theorem takeWhile_append_of_neg {p : Char → Bool} {c : Char} (h : p c = false)
    (s rest : List Char) : (s ++ c :: rest).takeWhile p = s.takeWhile p := by
  induction s with
  | nil => simp [h]
  | cons d s ih => cases hd : p d <;> simp [hd, ih]

theorem dropWhile_append_of_neg {p : Char → Bool} {c : Char} (h : p c = false)
    (s rest : List Char) : (s ++ c :: rest).dropWhile p = s.dropWhile p ++ c :: rest := by
  induction s with
  | nil => simp [h]
  | cons d s ih => cases hd : p d <;> simp [hd, ih]

theorem clean_append {c : Char} {rest : List Char} (h : ∀ d ∈ c :: rest, ' ' < d)
    (s : List Char) :
    clean (s ++ c :: rest) = (s.dropWhile isTrimmed).filter (!isDropped ·) ++ c :: rest := by
  have htrimmed : ∀ d, ' ' < d → isTrimmed d = false := fun d hd => by simpa [isTrimmed] using hd
  have hend : ((s.dropWhile isTrimmed ++ c :: rest).reverse.dropWhile isTrimmed).reverse =
      s.dropWhile isTrimmed ++ c :: rest := by
    cases hlast : (c :: rest).reverse with
    | nil => simp at hlast
    | cons d others =>
      have hd : d ∈ c :: rest := List.mem_reverse.mp (hlast ▸ List.mem_cons_self)
      rw [List.reverse_append, hlast, List.cons_append,
        List.dropWhile_cons_of_neg (by simp [htrimmed d (h d hd)]), ← List.cons_append, ← hlast,
        ← List.reverse_append, List.reverse_reverse]
  have hkept : ∀ d ∈ c :: rest, (!isDropped d) = true := by
    intro d hmem
    have hd := h d hmem
    unfold isDropped
    simp only [Bool.not_eq_true', Bool.or_eq_false_iff, beq_eq_false_iff_ne]
    refine ⟨⟨?_, ?_⟩, ?_⟩ <;> (rintro rfl; exact absurd hd (by decide))
  rw [clean, dropWhile_append_of_neg (htrimmed c (h c List.mem_cons_self)), hend,
    List.filter_append, List.filter_eq_self.mpr hkept]

theorem clean_eq_self {s : List Char} (h : ∀ c ∈ s, ' ' < c) : clean s = s := by
  cases s with
  | nil => rfl
  | cons c rest => exact clean_append h []

theorem written_ne_nil {scheme : String} {written : List Char}
    (h : (authority? scheme written).isSome) : written ≠ [] := by
  rintro rfl
  cases h

theorem trimUrl_of_isOrigin {backend : String} (h : IsOrigin backend) :
    Configuration.trimUrl backend = backend := by
  obtain ⟨scheme, written, -, hbackend, hchars, hauthority⟩ := h
  rw [Configuration.trimUrl, Text.trimEnd, hbackend, List.reverse_append, List.reverse_cons,
    List.reverse_cons, List.reverse_cons]
  cases hlast : written.reverse with
  | nil => exact absurd (List.reverse_eq_nil_iff.mp hlast) (written_ne_nil hauthority)
  | cons c rest =>
    have hc := (hchars c (List.mem_reverse.mp (hlast ▸ List.mem_cons_self))).2
    have hslash : c ≠ '/' := by
      rintro rfl
      exact absurd hc (by decide)
    rw [List.cons_append, List.cons_append, List.cons_append, List.cons_append,
      List.dropWhile_cons_of_neg (by simpa using hslash), ← String.ofList_toList (s := backend),
      hbackend]
    have hwritten : written = (c :: rest).reverse := by rw [← hlast, List.reverse_reverse]
    rw [hwritten]
    simp

theorem splitScheme?_of_isHttp {scheme : String} (h : scheme = "http" ∨ scheme = "https")
    (rest : List Char) : splitScheme? (scheme.toList ++ ':' :: rest) = some (scheme, rest) := by
  have hname : ∀ c ∈ scheme.toList, isSchemeChar c = true := List.all_eq_true.mp <| by
    rcases h with rfl | rfl <;> decide
  have hcolon : ¬isSchemeChar ':' = true := by decide
  rw [splitScheme?, List.takeWhile_append_of_pos hname, List.dropWhile_append_of_pos hname,
    List.takeWhile_cons_of_neg hcolon, List.dropWhile_cons_of_neg hcolon, List.append_nil]
  rcases h with rfl | rfl <;> rfl

theorem takeWhile_dropWhile_of_forall {p : Char → Bool} {s : List Char}
    (h : ∀ c ∈ s, p c = true) : s.takeWhile p = s ∧ s.dropWhile p = [] := by
  have htake : (s ++ []).takeWhile p = s ++ [] := List.takeWhile_append_of_pos h
  have hdrop : (s ++ []).dropWhile p = [] := List.dropWhile_append_of_pos h
  rw [List.append_nil] at htake hdrop
  exact ⟨htake, hdrop⟩

theorem ofText?_of_isOrigin {backend : String} (h : IsOrigin backend) :
    ∃ scheme authority, ∀ (s : String) (path : List Char),
      s.toList = backend.toList ++ '/' :: path →
      (∀ c ∈ path, ' ' < c ∧ c ≠ '?' ∧ c ≠ '#') →
      ofText? s = some ⟨scheme, authority, Url.segments ('/' :: path), none⟩ := by
  obtain ⟨scheme, written, hscheme, hbackend, hchars, hsome⟩ := h
  obtain ⟨authority, hauthority⟩ := Option.isSome_iff_exists.mp hsome
  refine ⟨scheme, authority, fun s path htext hpath => ?_⟩
  rw [hbackend, List.append_assoc, List.cons_append, List.cons_append, List.cons_append] at htext
  -- No part of the URL holds a character that cleaning would drop.
  have hclean : clean s.toList = s.toList := by
    refine clean_eq_self fun c hmem => ?_
    have hstart : ∀ c ∈ scheme.toList, ' ' < c := by
      rcases hscheme with rfl | rfl <;> simp
    simp only [htext, List.mem_append, List.mem_cons] at hmem
    rcases hmem with hmem | rfl | rfl | rfl | hmem | rfl | hmem
    · exact hstart c hmem
    · decide
    · decide
    · decide
    · exact (hchars c hmem).1
    · decide
    · exact (hpath c hmem).1
  have hslashes : ('/' :: '/' :: (written ++ '/' :: path)).dropWhile isSlash =
      written ++ '/' :: path := by
    cases hwritten : written with
    | nil => exact absurd hwritten (written_ne_nil hsome)
    | cons c rest =>
      have hc := (hchars c (hwritten ▸ List.mem_cons_self)).2
      rw [endsAuthority, Bool.or_assoc, Bool.or_eq_false_iff] at hc
      rw [List.dropWhile_cons_of_pos (by decide), List.dropWhile_cons_of_pos (by decide),
        List.cons_append, List.dropWhile_cons_of_neg (by simp [hc.1])]
  have hhost : ∀ c ∈ written, (!endsAuthority c) = true := fun c hmem => by
    rw [(hchars c hmem).2, Bool.not_false]
  have hslash : (!endsAuthority '/') = false := by decide
  have hhash := takeWhile_dropWhile_of_forall (p := (· != '#')) (s := '/' :: path) <|
    List.forall_mem_cons.mpr ⟨by decide, fun c hmem => by simpa using (hpath c hmem).2.2⟩
  have hmark := takeWhile_dropWhile_of_forall (p := (· != '?')) (s := '/' :: path) <|
    List.forall_mem_cons.mpr ⟨by decide, fun c hmem => by simpa using (hpath c hmem).2.1⟩
  have hhttp : ¬(scheme ≠ "http" ∧ scheme ≠ "https") := by
    rcases hscheme with rfl | rfl <;> decide
  rw [ofText?, hclean, htext, splitScheme?_of_isHttp hscheme]
  simp only [Option.bind_eq_bind, Option.bind_some, if_neg hhttp]
  rw [hslashes, List.takeWhile_append_of_pos hhost, List.dropWhile_append_of_pos hhost,
    List.takeWhile_cons, List.dropWhile_cons, hslash]
  simp only [Bool.false_eq_true, if_false, List.append_nil]
  rw [hauthority, hhash.1, hmark.1, hmark.2]
  rfl

def rootPath : List Char := "api/preview/environments".toList

def rootNames : List String := ["environments", "preview", "api"]

theorem of_mem_pathChars {segments : List String} {c : Char} (h : c ∈ Api.pathChars segments) :
    ' ' < c ∧ c ≠ '?' ∧ c ≠ '#' := by
  obtain ⟨segment, _, hmem⟩ := List.mem_flatMap.mp h
  rcases List.mem_cons.mp hmem with rfl | htext
  · decide
  · have hc := isSegmentText_encodeSegment segment c htext
    simp only [isSegmentText, Bool.and_eq_true, decide_eq_true_eq, bne_iff_ne] at hc
    exact ⟨hc.1.1.1.1.1, hc.1.1.2, hc.1.2⟩

theorem segments_pathChars (segments : List String) :
    Url.segments ('/' :: (rootPath ++ Api.pathChars segments)) =
      ((resolveNames rootNames (segments.flatMap parts)).map encodeName).reverse := by
  have hroot : splitSlashes rootPath = rootNames.reverse.map encodeSegment := by
    rw [funext encodeSegment_eq_flatMap]
    rfl
  have hkept := addPieces_map_encodeSegment [] (rootNames.reverse ++ segments.flatMap parts)
  rw [List.map_nil] at hkept
  rw [Url.segments, List.drop_succ_cons, List.drop_zero, splitSlashes_append_pathChars, hroot,
    ← List.map_append, hkept]
  rfl

theorem ofText?_url {backend : String} (h : IsOrigin backend) :
    ∃ scheme authority, ∀ segments : List String,
      ofText? (backend ++ Api.root ++ "/environments" ++ String.ofList (Api.pathChars segments)) =
        some ⟨scheme, authority,
          ((resolveNames rootNames (segments.flatMap parts)).map encodeName).reverse, none⟩ := by
  obtain ⟨scheme, authority, hread⟩ := ofText?_of_isOrigin h
  have hroot : ∀ c ∈ rootPath, (' ' < c && c != '?' && c != '#') = true :=
    List.all_eq_true.mp (by decide)
  refine ⟨scheme, authority, fun segments => ?_⟩
  rw [← segments_pathChars]
  refine hread _ (rootPath ++ Api.pathChars segments) ?_ fun c hmem => ?_
  · simp only [String.toList_append, String.toList_ofList, List.append_assoc]
    rfl
  · rcases List.mem_append.mp hmem with hmem | hmem
    · simpa [and_assoc] using hroot c hmem
    · exact of_mem_pathChars hmem

end EnvClient.Url
