import Mathlib.Data.List.Basic
import Mathlib.Data.Option.Basic
import Sentinel.DotNet.Base

/-!
# JSON tokens and the paths that select them

The part of the JSON library that the projections of custom objects rely on, as its documentation
describes it: a path of names and indices selects a token or none, and a filter selects the elements
of an array.

* `selectToken_append` — a path is followed step by step.
* `selectToken_index` — what an index selects is an element of the array.
-/

set_option autoImplicit false

namespace Sentinel

/-- A JSON token; the names of an object are distinct. -/
inductive JToken where
  | null
  | boolean (value : Bool)
  | number (text : String)
  | string (value : String)
  | array (items : List JToken)
  | object (members : List (String × JToken))

inductive PathStep where
  | field (name : String)
  | index (n : ℕ)

namespace JToken

def select : PathStep → JToken → Option JToken
  | .field name, .object members => members.lookup name
  | .index n, .array items => items[n]?
  | _, _ => none

/-- `SelectToken`; null if there is no such token. -/
def selectToken : List PathStep → JToken → Option JToken
  | [], token => some token
  | step :: path, token => (token.select step).bind (selectToken path)

/-- The elements of an array. -/
def elements : JToken → List JToken
  | .array items => items
  | _ => []

/-- The elements of the array at the path. -/
def elementsAt (path : List PathStep) (token : JToken) : List JToken :=
  match token.selectToken path with
  | some selected => selected.elements
  | none => []

/-- The filter `?(@.path == 'value')`. -/
def isText (path : List PathStep) (value : String) (token : JToken) : Bool :=
  match token.selectToken path with
  | some (.string text) => text == value
  | _ => false

/-- `ToString`; the text of numbers and composite tokens is `render`. -/
def text (render : JToken → String) : JToken → String
  | .null => ""
  | .boolean value => if value then "True" else "False"
  | .string value => value
  | token => render token

/-- `SelectToken(path)?.ToString()`. -/
def textAt (render : JToken → String) (path : List PathStep) (token : JToken) : Option String :=
  (token.selectToken path).map (text render)

variable {token : JToken} {path rest : List PathStep}

theorem selectToken_append (path rest : List PathStep) (token : JToken) :
    token.selectToken (path ++ rest) = (token.selectToken path).bind (selectToken rest) := by
  induction path generalizing token with
  | nil => rfl
  | cons step path ih =>
    rw [List.cons_append, selectToken, selectToken]
    cases token.select step with
    | none => rfl
    | some next => exact ih next

/-- **An index** selects an element of the array it is applied to. -/
theorem selectToken_index {n : ℕ} {selected : JToken}
    (h : token.selectToken (path ++ .index n :: rest) = some selected) :
    ∃ element ∈ token.elementsAt path, element.selectToken rest = some selected := by
  rw [selectToken_append, Option.bind_eq_some_iff] at h
  obtain ⟨array, harray, h⟩ := h
  rw [selectToken, Option.bind_eq_some_iff] at h
  obtain ⟨element, helement, hselected⟩ := h
  refine ⟨element, ?_, hselected⟩
  rw [elementsAt, harray]
  cases array with
  | array items => exact List.mem_of_getElem? helement
  | null => cases helement
  | boolean value => cases helement
  | number text => cases helement
  | string value => cases helement
  | object members => cases helement

theorem textAt_eq_some_iff {render : JToken → String} {value : String} :
    token.textAt render path = some value ↔
      ∃ selected, token.selectToken path = some selected ∧ selected.text render = value :=
  Option.map_eq_some_iff

end JToken

end Sentinel
