import Adlc.Core.Glob
import Adlc.Core.Scope

namespace Adlc.Core

open Adlc.Framework

/-! ## The literal base of a pattern -/

theorem globTokens_unit {c : UInt16} (hc : c ≠ asterisk) (rest : JsString) :
    globTokens (c :: rest) = pushLiteral c (globTokens rest) := by
  match rest with
  | [] => simp [globTokens, hc]
  | [d] => simp [globTokens, hc]
  | d :: e :: rest => rw [globTokens, if_neg hc]

theorem globTokens_asterisk (rest : JsString) (text : JsString) (tokens : List GlobToken) :
    globTokens (asterisk :: rest) ≠ .literal text :: tokens := by
  match rest with
  | [] => simp [globTokens]
  | [d] =>
    rw [globTokens, if_pos rfl]
    split_ifs <;> simp
  | d :: e :: rest =>
    rw [globTokens, if_pos rfl]
    split_ifs <;> simp

/-- A pattern that does not begin with `*` begins with its base. -/
theorem globTokens_of_base {glob : JsString} (h : globBase glob ≠ []) :
    ∃ tokens, globTokens glob = .literal (globBase glob) :: tokens := by
  induction glob with
  | nil => exact absurd rfl h
  | cons c rest ih =>
    have hc : c ≠ asterisk := by
      rintro rfl
      exact h (by simp [globBase, asterisk])
    have hbase : globBase (c :: rest) = c :: globBase rest := by
      rw [globBase, List.takeWhile_cons_of_pos (by simpa [asterisk] using hc), globBase]
    rw [globTokens_unit hc, hbase]
    by_cases hrest : globBase rest = []
    · rw [hrest]
      have hnot : ∀ text tokens, globTokens rest ≠ .literal text :: tokens := by
        cases rest with
        | nil => simp [globTokens]
        | cons d rest =>
          have hd : d = asterisk := by
            by_contra hd
            rw [globBase, List.takeWhile_cons_of_pos (by simpa [asterisk] using hd)] at hrest
            cases hrest
          rw [hd]
          exact globTokens_asterisk rest
      unfold pushLiteral
      split
      · rename_i text tokens heq
        exact absurd heq (hnot text tokens)
      · exact ⟨_, rfl⟩
    · obtain ⟨tokens, heq⟩ := ih hrest
      exact ⟨tokens, by rw [heq, pushLiteral]⟩

/-- Every path that a pattern matches begins with the base of the pattern. -/
theorem globBase_starts {glob path : JsString} (h : globMatch glob path = true) :
    globBase glob <+: path := by
  by_cases hbase : globBase glob = []
  · rw [hbase]
    exact List.nil_prefix
  · obtain ⟨tokens, htokens⟩ := globTokens_of_base hbase
    rw [globMatch_eq_true_iff, htokens, globLanguage, List.map_cons, List.prod_cons,
      Language.mem_mul] at h
    obtain ⟨front, hfront, rest, -, rfl⟩ := h
    have heq : front = globBase glob := hfront
    rw [heq]
    exact List.prefix_append _ _

variable {ν : Type} [JsNumber ν]

/-! ## Two scopes that share a path -/

def inScope (ticket : Json ν) (path : JsString) : Bool :=
  (scopeOf ticket).any fun g => globMatch g path

/-- Neither base is empty, and one continues the other. -/
def BasesMeet (ga gb : JsString) : Prop :=
  globBase ga ≠ [] ∧ globBase gb ≠ [] ∧
    (globBase gb <+: globBase ga ∨ globBase ga <+: globBase gb)

theorem globsOverlap_iff (ga gb : JsString) :
    globsOverlap ga gb = true ↔ ga = gb ∨ BasesMeet ga gb := by
  simp [globsOverlap, BasesMeet, and_assoc]

omit [JsNumber ν] in
theorem scopesOverlap_iff (a b : Json ν) :
    scopesOverlap a b = true ↔
      ∃ ga ∈ scopeOf a, ∃ gb ∈ scopeOf b, ga = gb ∨ BasesMeet ga gb := by
  simp only [scopesOverlap, List.any_eq_true, globsOverlap_iff]

theorem basesMeet_of_match {ga gb path : JsString} (ha : globMatch ga path = true)
    (hb : globMatch gb path = true) (hane : globBase ga ≠ []) (hbne : globBase gb ≠ []) :
    BasesMeet ga gb :=
  ⟨hane, hbne, List.prefix_or_prefix_of_prefix (globBase_starts hb) (globBase_starts ha)⟩

/-- Where a pattern that begins with `*` shares a path with a pattern of the other ticket, some
other patterns of the two tickets are equal or have bases that meet. -/
def LeadingStarsCovered (a b : Json ν) : Prop :=
  ∀ ga ∈ scopeOf a, ∀ gb ∈ scopeOf b, globBase ga = [] ∨ globBase gb = [] →
    (∃ path, globMatch ga path = true ∧ globMatch gb path = true) →
    ∃ ga' ∈ scopeOf a, ∃ gb' ∈ scopeOf b, ga' = gb' ∨ BasesMeet ga' gb'

def NoSharedPath (a b : Json ν) : Prop := ∀ path, ¬(inScope a path = true ∧ inScope b path = true)

omit [JsNumber ν] in
theorem overlap_of_shared_iff (a b : Json ν) :
    (∀ path, inScope a path = true → inScope b path = true → scopesOverlap a b = true) ↔
      LeadingStarsCovered a b := by
  constructor
  · intro h ga hga gb hgb _ hshared
    obtain ⟨path, hpa, hpb⟩ := hshared
    rw [← scopesOverlap_iff]
    exact h path (List.any_eq_true.2 ⟨ga, hga, hpa⟩) (List.any_eq_true.2 ⟨gb, hgb, hpb⟩)
  · intro h path ha hb
    obtain ⟨ga, hga, hpa⟩ := List.any_eq_true.1 ha
    obtain ⟨gb, hgb, hpb⟩ := List.any_eq_true.1 hb
    rw [scopesOverlap_iff]
    by_cases hempty : globBase ga = [] ∨ globBase gb = []
    · exact h ga hga gb hgb hempty ⟨path, hpa, hpb⟩
    · rw [not_or] at hempty
      exact ⟨ga, hga, gb, hgb, Or.inr (basesMeet_of_match hpa hpb hempty.1 hempty.2)⟩

omit [JsNumber ν] in
theorem noSharedPath_iff {a b : Json ν} (h : scopesOverlap a b = false) :
    NoSharedPath a b ↔ LeadingStarsCovered a b := by
  rw [← overlap_of_shared_iff, h]
  simp [NoSharedPath]

end Adlc.Core
