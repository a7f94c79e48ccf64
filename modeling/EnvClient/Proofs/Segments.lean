import EnvClient.Proofs.Requests
import Mathlib.Data.List.Forall2

/-! The URLs that segments are put together to. Each segment is written between slashes in a small
alphabet, in which neither a slash nor a percent sign stands for itself, so that a URL can be
taken apart again and no two lists of segments have the same one. -/
namespace EnvClient

open Text (splitAt)
open Url (decodeSegment? encodeSegment segmentByte)

namespace Url

/-- What of ASCII can be shown and has no meaning of its own. -/
def isUnescaped (c : Char) : Bool :=
  ' ' < c && c < '\x7f' && !"\"#%/<>?`\x7b\x7d".toList.contains c

def isUpperHex (c : Char) : Bool := c.isDigit || ('A' ≤ c && c ≤ 'F')

/-- A percent sign stands only before two digits. -/
inductive IsEscaped : List Char → Prop where
  | nil : IsEscaped []
  | plain {c : Char} {rest : List Char} (h : isUnescaped c = true) (others : IsEscaped rest) :
      IsEscaped (c :: rest)
  | escape {high low : Char} {rest : List Char} (hhigh : isUpperHex high = true)
      (hlow : isUpperHex low = true) (others : IsEscaped rest) :
      IsEscaped ('%' :: high :: low :: rest)

theorem IsEscaped.append {s t : List Char} (h : IsEscaped s) (h' : IsEscaped t) :
    IsEscaped (s ++ t) := by
  induction h with
  | nil => exact h'
  | plain h _ ih => exact .plain h ih
  | escape hhigh hlow _ ih => exact .escape hhigh hlow ih

theorem isUnescaped_of_not_isSegmentSpecial :
    ∀ b : UInt8, isSegmentSpecial b = false → isUnescaped (Char.ofNat b.toNat) = true :=
  forall_byte (by decide +kernel)

theorem isUpperHex_upperDigit : ∀ b : UInt8,
    isUpperHex (Text.upperDigit (b.toNat / 16)) = true ∧
      isUpperHex (Text.upperDigit (b.toNat % 16)) = true :=
  forall_byte (by decide +kernel)

theorem isEscaped_segmentByte (b : UInt8) : IsEscaped (segmentByte b) := by
  unfold segmentByte
  split
  · obtain ⟨hhigh, hlow⟩ := isUpperHex_upperDigit b
    rw [escapeByte_eq]
    exact .escape hhigh hlow .nil
  · rename_i hb
    exact .plain (isUnescaped_of_not_isSegmentSpecial b (Bool.eq_false_iff.mpr hb)) .nil

theorem isEscaped_encodeSegment (s : String) : IsEscaped (encodeSegment s) := by
  rw [encodeSegment_eq]
  induction Text.Utf8.encode s with
  | nil => exact .nil
  | cons b rest ih => exact (isEscaped_segmentByte b).append ih

end Url

namespace Api

/-- What a URL was put together of: what stands between the slashes behind the path to all
environments, each piece decoded. -/
def segments? (api : Api) (url : String) : Option (List String) :=
  let root := (api.base ++ "/environments").toList
  if root <+: url.toList then
    match splitAt '/' (url.toList.drop root.length) with
    | [] :: pieces => pieces.mapM decodeSegment?
    | _ => none
  else none

theorem toList_url (api : Api) (segments : List String) : (api.url segments).toList =
    (api.base ++ "/environments").toList ++ pathChars segments := by
  rw [url, String.toList_append, String.toList_ofList]

theorem segments?_url (api : Api) (segments : List String) :
    api.segments? (api.url segments) = some segments := by
  rw [segments?, toList_url, if_pos (List.prefix_append _ _), List.drop_left, splitAt_pathChars]
  exact mapM_decodeSegment?_map segments

theorem url_injective (api : Api) : Function.Injective api.url := by
  intro segments segments' h
  have hread := api.segments?_url segments
  rw [h, api.segments?_url] at hread
  exact (Option.some.inj hread).symm

/-- The URL of segments is the path to all environments and a slash and a piece for each of them:
a piece of the alphabet, which is decoded to the segment. So it is taken apart again. -/
theorem url_decodable (api : Api) :
    (∀ segments, ∃ pieces,
      (api.url segments).toList =
        (api.base ++ "/environments").toList ++ pieces.flatMap ('/' :: ·) ∧
      List.Forall₂ (fun piece segment =>
        Url.IsEscaped piece ∧ decodeSegment? piece = some segment) pieces segments) ∧
    (∀ segments, api.segments? (api.url segments) = some segments) ∧
    Function.Injective api.url := by
  refine ⟨fun segments => ⟨segments.map encodeSegment, ?_, ?_⟩, api.segments?_url,
    api.url_injective⟩
  · rw [toList_url, List.flatMap_map]
    rfl
  · rw [List.forall₂_map_left_iff, List.forall₂_same]
    exact fun segment _ =>
      ⟨Url.isEscaped_encodeSegment segment, Url.decodeSegment?_encodeSegment segment⟩

example : (Api.mk "https://host/api" none "").url ["", "a/b%2Fé"] =
    "https://host/api/environments//a%2Fb%252F%C3%A9" := by decide +kernel

end Api
end EnvClient
