import Sentinel.DotNet.Base
import Sentinel.Lib.Replacing

/-!
# `ClientUrlFixer`

The client asks for the resources of the core group under `/apis//v1/`; the handler sends such
requests to `/api/v1/`.

* `hasEmptySegments_iff` — what the count of segments tells.
* `IsPath.fixed` — the rewritten path can be put into a URI as it is.
* `fixes_iff` — the handler changes only the prefix iff the rest of the path does not hold `apis`.
-/

set_option autoImplicit false

namespace Sentinel.ClientUrlFixer

open Replacing

/-! ## URIs -/

/-- The characters of an escaped path. -/
def isPathChar (c : Char) : Bool :=
  c.isAlphanum || ['-', '.', '_', '~', '!', '$', '&', '\'', '(', ')', '*', '+', ',', ';', '=', ':',
    '@', '%', '/', '[', ']'].contains c

/-- A path as a parsed URI has it: absolute, escaped and without dot segments.  `UriBuilder` leaves
such a path as it is. -/
structure IsPath (text : Text) : Prop where
  absolute : ∃ rest, text = '/' :: rest
  chars : ∀ c ∈ text, isPathChar c = true
  noDots : ∀ segment ∈ split '/' text, segment ≠ ['.'] ∧ segment ≠ ['.', '.']

/-- `Uri`, with its path as the field `AbsolutePath`. -/
structure Uri where
  scheme : String
  host : String
  port : ℕ
  absolutePath : Text
  query : String
  isPath : IsPath absolutePath

structure HttpRequestMessage where
  requestUri : Option Uri

/-- `Uri.Segments`: every segment with the slash that ends it. -/
def segments : Text → List Text
  | [] => []
  | c :: rest =>
    if c = '/' then ['/'] :: segments rest
    else match segments rest with
      | [] => [[c]]
      | segment :: others => (c :: segment) :: others

/-! ## The handler -/

/-- `Segments.Count(s => s == "/") > 1`. -/
def hasEmptySegments (path : Text) : Bool := decide (1 < (segments path).count ['/'])

/-- `builder.Path.Replace("//", "/").Replace("apis", "api")`. -/
def fixedPath (path : Text) : Text :=
  replace ['a', 'p', 'i', 's'] ['a', 'p', 'i'] (replace ['/', '/'] ['/'] path)

/-! ## The count of segments -/

theorem segments_cons_ne {c : Char} (h : c ≠ '/') (rest : Text) :
    ∃ segment, segments (c :: rest) = (c :: segment) :: (segments rest).tail := by
  rw [segments, if_neg h]
  cases segments rest with
  | nil => exact ⟨[], rfl⟩
  | cons segment others => exact ⟨segment, rfl⟩

theorem segments_slash (rest : Text) : segments ('/' :: rest) = ['/'] :: segments rest := rfl

/-- Only the first segment is a lone slash without a slash before it. -/
theorem mem_tail_segments {path : Text} :
    ['/'] ∈ (segments path).tail ↔ ['/', '/'] <:+: path := by
  induction path with
  | nil => simp [segments]
  | cons c rest ih =>
    rw [List.infix_cons_iff, List.cons_prefix_cons, ← ih]
    by_cases hc : c = '/'
    · subst hc
      rw [segments_slash, List.tail_cons]
      cases rest with
      | nil => simp [segments]
      | cons d rest =>
        by_cases hd : d = '/'
        · subst hd
          simp [segments_slash]
        · obtain ⟨segment, hsegment⟩ := segments_cons_ne hd rest
          simp [hsegment, Ne.symm hd]
    · obtain ⟨segment, hsegment⟩ := segments_cons_ne hc rest
      simp [hsegment, Ne.symm hc]

theorem hasEmptySegments_iff {path : Text} (h : IsPath path) :
    hasEmptySegments path = true ↔ ['/', '/'] <:+: path := by
  obtain ⟨rest, rfl⟩ := h.absolute
  rw [← mem_tail_segments, hasEmptySegments, decide_eq_true_eq, segments_slash,
    List.count_cons_self, List.tail_cons, ← List.count_pos_iff]
  omega

/-! ## The rewritten path -/

theorem mem_split_fixedPath {path segment : Text} (h : segment ∈ split '/' (fixedPath path)) :
    ∃ before ∈ split '/' path, segment = replace ['a', 'p', 'i', 's'] ['a', 'p', 'i'] before := by
  unfold fixedPath split at h
  rw [splitOn_replace (by decide) (by decide) (by decide)] at h
  obtain ⟨before, hbefore, rfl⟩ := List.mem_map.1 h
  exact ⟨before, mem_splitOn_collapse hbefore, rfl⟩

/-- Replacing does not make a segment of dots. -/
theorem replace_ne_dots {segment dots : Text} (hdots : 'a' ∉ dots) (h : segment ≠ dots) :
    replace ['a', 'p', 'i', 's'] ['a', 'p', 'i'] segment ≠ dots := by
  by_cases hinfix : ['a', 'p', 'i', 's'] <:+: segment
  · rintro rfl
    exact hdots (mem_replace_of_occurs (by decide) hinfix (by decide))
  · rwa [replace_of_absent (by decide) hinfix]

theorem fixedPath_absolute {rest : Text} : ∃ rest', fixedPath ('/' :: rest) = '/' :: rest' := by
  have hfirst : ∃ rest', replace ['/', '/'] ['/'] ('/' :: rest) = '/' :: rest' := by
    by_cases hprefix : ['/', '/'] <+: '/' :: rest
    · obtain ⟨after, hafter⟩ := hprefix
      rw [← hafter, replace_append (by decide)]
      exact ⟨_, rfl⟩
    · rw [replace_cons hprefix]
      exact ⟨_, rfl⟩
  obtain ⟨rest', hrest'⟩ := hfirst
  unfold fixedPath
  rw [hrest', replace_cons]
  · exact ⟨_, rfl⟩
  · intro hprefix
    exact absurd (List.cons_prefix_cons.1 hprefix).1 (by decide)

/-- **The rewritten path** is one that a URI keeps as it is. -/
theorem IsPath.fixed {path : Text} (h : IsPath path) : IsPath (fixedPath path) where
  absolute := by
    obtain ⟨rest, rfl⟩ := h.absolute
    exact fixedPath_absolute
  chars := by
    intro c hc
    rcases mem_replace (by decide) hc with hnew | hc
    · have hall : ['a', 'p', 'i'].all isPathChar = true := by decide
      exact List.all_eq_true.1 hall c hnew
    · rcases mem_replace (by decide) hc with hnew | hc
      · rw [List.mem_singleton.1 hnew]
        decide
      · exact h.chars c hc
  noDots := by
    intro segment hsegment
    obtain ⟨before, hbefore, rfl⟩ := mem_split_fixedPath hsegment
    obtain ⟨hone, htwo⟩ := h.noDots before hbefore
    exact ⟨replace_ne_dots (by decide) hone, replace_ne_dots (by decide) htwo⟩

/-- `builder.Uri`, with the new path. -/
def Uri.fixed (uri : Uri) : Uri :=
  { uri with absolutePath := fixedPath uri.absolutePath, isPath := uri.isPath.fixed }

/-- `SendAsync`: the request that is handed on. -/
def sendAsync (request : Option HttpRequestMessage) : Except Exn HttpRequestMessage :=
  match request with
  | none => .error (.argumentNullException "request")
  | some request =>
    match request.requestUri with
    | none => .ok request
    | some uri =>
      if hasEmptySegments uri.absolutePath then .ok { request with requestUri := some uri.fixed }
      else .ok request

/-! ## What the handler changes -/

def NoEmptySegment (path : Text) : Prop := ¬ ['/', '/'] <:+: path

/-- One URI is fixed properly: after `/apis//v1/` the rest of the path stays, and a path without
an empty segment stays as it is. -/
structure FixesPath (uri : Uri) : Prop where
  fixed : ∀ rest, uri.absolutePath = "/apis//v1/".toList ++ rest → NoEmptySegment ('/' :: rest) →
    ∃ sent : Uri, sendAsync (some ⟨some uri⟩) = .ok ⟨some sent⟩ ∧
      sent.absolutePath = "/api/v1/".toList ++ rest ∧ sent.scheme = uri.scheme ∧
      sent.host = uri.host ∧ sent.port = uri.port ∧ sent.query = uri.query
  unchanged : NoEmptySegment uri.absolutePath → sendAsync (some ⟨some uri⟩) = .ok ⟨some uri⟩

theorem sendAsync_fixed {uri : Uri} (h : ¬ NoEmptySegment uri.absolutePath) :
    sendAsync (some ⟨some uri⟩) = .ok ⟨some uri.fixed⟩ :=
  if_pos ((hasEmptySegments_iff uri.isPath).2 (not_not.1 h))

theorem sendAsync_unchanged {uri : Uri} (h : NoEmptySegment uri.absolutePath) :
    sendAsync (some ⟨some uri⟩) = .ok ⟨some uri⟩ :=
  if_neg fun hempty => h ((hasEmptySegments_iff uri.isPath).1 hempty)

theorem fixedPath_core {rest : Text} (h : NoEmptySegment ('/' :: rest)) :
    fixedPath ("/apis//v1/".toList ++ rest) =
      "/api/v1/".toList ++ replace ['a', 'p', 'i', 's'] ['a', 'p', 'i'] rest := by
  have hslashes : replace ['/', '/'] ['/'] ("/apis//v1/".toList ++ rest) =
      "/apis/v1".toList ++ replace ['/', '/'] ['/'] ('/' :: rest) := rfl
  rw [fixedPath, hslashes, replace_of_absent (by decide) h]
  rfl

theorem not_noEmptySegment_core (rest : Text) :
    ¬ NoEmptySegment ("/apis//v1/".toList ++ rest) :=
  fun h => h ⟨"/apis".toList, "v1/".toList ++ rest, by simp⟩

/-- **The handler changes only the prefix** iff `apis` does not occur behind it. -/
theorem fixes_iff (uri : Uri) :
    FixesPath uri ↔ ∀ rest, uri.absolutePath = "/apis//v1/".toList ++ rest →
      NoEmptySegment ('/' :: rest) → ¬ ['a', 'p', 'i', 's'] <:+: rest := by
  constructor
  · intro h rest hpath hrest
    obtain ⟨sent, hsent, habsolute, -⟩ := h.fixed rest hpath hrest
    rw [sendAsync_fixed (hpath ▸ not_noEmptySegment_core rest)] at hsent
    cases hsent
    change fixedPath uri.absolutePath = _ at habsolute
    rw [hpath, fixedPath_core hrest] at habsolute
    exact (replace_eq_self_iff (by decide)).1 (List.append_cancel_left habsolute)
  · intro h
    refine ⟨fun rest hpath hrest => ?_, sendAsync_unchanged⟩
    refine ⟨uri.fixed, sendAsync_fixed (hpath ▸ not_noEmptySegment_core rest), ?_,
      rfl, rfl, rfl, rfl⟩
    change fixedPath uri.absolutePath = _
    rw [hpath, fixedPath_core hrest, replace_of_absent (by decide) (h rest hpath hrest)]

/-- The pods of a namespace. -/
def apisProd : Uri where
  scheme := "https"
  host := "10.0.0.1"
  port := 443
  absolutePath := "/apis//v1/namespaces/apis-prod/pods".toList
  query := ""
  isPath := ⟨⟨_, rfl⟩, List.all_eq_true.1 (by decide), by decide⟩

/-- A namespace whose name starts with `apis`. -/
theorem not_fixes_apisProd : ¬ FixesPath apisProd ∧
    sendAsync (some ⟨some apisProd⟩) = .ok ⟨some apisProd.fixed⟩ ∧
    apisProd.fixed.absolutePath = "/api/v1/namespaces/api-prod/pods".toList := by
  refine ⟨fun h => ?_, sendAsync_fixed (not_noEmptySegment_core _), by decide⟩
  have hrest : NoEmptySegment ('/' :: "namespaces/apis-prod/pods".toList) := by
    unfold NoEmptySegment
    decide
  obtain ⟨sent, hsent, habsolute, -⟩ := h.fixed _ rfl hrest
  rw [sendAsync_fixed (not_noEmptySegment_core _)] at hsent
  cases hsent
  revert habsolute
  decide

end Sentinel.ClientUrlFixer
