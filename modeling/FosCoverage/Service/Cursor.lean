import Mathlib.Data.List.Nodup
import FosCoverage.Lib.Base64
import FosCoverage.Lib.CompactJson
import FosCoverage.Lib.Keyset
import FosCoverage.Lib.Outcome

/-!
# Keyset cursors

`_encode_keyset_cursor` and `_decode_keyset_cursor` of the application: the key of the last row of a
page, bound to the scan, the data version and the filter it was read with, as JSON in base 64.

* A request carries its cursor as a text, or has none; a dictionary is taken as the payload itself.
* Whatever is wrong with a cursor, the answer is `PAGINATION_CURSOR_STALE`.

* `throughCursors` is what a client sees of pages whose cursors go out encoded and come back decoded.

**A cursor is read back with the scan, the version and the filter it was made for, and refused with
every other** (`decodeKeysetCursor_encode`), so that keyset pages are keyset pages for the client as
well (`serves_throughCursors`).
-/

set_option autoImplicit false

namespace FosCoverage

open JsonText

/-- What the paged endpoints raise. -/
inductive PageError
  /-- `KeyError` -/
  | projectNotFound (projectName : String)
  /-- `KeyError` -/
  | scanNotFound
  /-- `ValueError` -/
  | invalidScanIdentity
  /-- `ValueError` -/
  | cursorStale
  /-- `int` refuses a value. -/
  | number (e : NumberError)
  deriving DecidableEq, Repr

/-- The text of the exception, where the services give one. -/
def PageError.message : PageError → Option String
  | .projectNotFound projectName => some ("project not found: " ++ projectName)
  | .scanNotFound => some "scan not found"
  | .invalidScanIdentity => some "INVALID_SCAN_IDENTITY"
  | .cursorStale => some "PAGINATION_CURSOR_STALE"
  | .number _ => none

/-- The dictionary of a cursor. -/
abbrev Cursor := List (String × Json)

/-- A dictionary of whole numbers, as the pages make them. -/
structure Cursor.IsKey (cursor : Cursor) : Prop where
  /-- It is not empty. -/
  ne_nil : cursor ≠ []
  /-- No key is repeated. -/
  nodup : (cursor.map Prod.fst).Nodup
  /-- The values are whole numbers. -/
  int : ∀ e ∈ cursor, ∃ n, e.2 = .int n

namespace Application

/-! ## The codec -/

/-- `.encode("utf-8")` -/
def utf8Encode (cs : List Char) : List UInt8 := cs.flatMap String.utf8EncodeChar

/-- `.decode("utf-8")` -/
def utf8Decode (bytes : List UInt8) : Option (List Char) :=
  bytes.toByteArray.utf8Decode?.map Array.toList

/-- The payload of a cursor. -/
def cursorPayload (cursor : Cursor) (scanId dataVersion : Int) (filterKey : String) : Cursor :=
  [("cursor", .object cursor), ("scan_id", .int scanId), ("data_version", .int dataVersion),
    ("filter", .text filterKey)]

/-- `_encode_keyset_cursor` -/
def encodeKeysetCursor (cursor : Option Cursor) (scanId dataVersion : Int) (filterKey : String) :
    Option String :=
  match cursor with
  | none => none
  | some [] => none
  | some (e :: cursor) =>
    let raw := (Json.object (cursorPayload (e :: cursor) scanId dataVersion filterKey)).dumps
    some (String.ofList (Base64.encode (utf8Encode raw)))

section Decode

variable (t : UnicodeTables) (floats : List Char → PyFloat)

/-- The dictionary a request's value stands for. -/
def payloadOf : Json → Option Cursor
  | .object payload => some payload
  | value => do
    let text := (value.str t).toList
    let raw ← if text.all fun c => c.toNat < 128 then Base64.decode text else none
    match loads floats (← utf8Decode raw) with
    | some (.object payload) => some payload
    | _ => none

/-- The cursor of a payload that is bound to the scan, the version and the filter. -/
def boundCursor (payload : Cursor) (scanId dataVersion : Int) (filterKey : String) :
    Option Cursor :=
  match (Json.get payload "scan_id").toInt t, (Json.get payload "data_version").toInt t with
  | .ok scan, .ok version =>
    if scan ≠ scanId ∨ version ≠ dataVersion ∨
        ((Json.get payload "filter").or (.text "")).str t ≠ filterKey then none
    else
      match Json.get payload "cursor" with
      | .object cursor => some cursor
      | _ => none
  | _, _ => none

/-- `_decode_keyset_cursor` -/
def decodeKeysetCursor (value : Json) (scanId dataVersion : Int) (filterKey : String) :
    Except PageError (Option Cursor) :=
  if value.truthy = false then .ok none
  else
    match (payloadOf t floats value).bind fun p => boundCursor t p scanId dataVersion filterKey with
    | some cursor => .ok (some cursor)
    | none => .error .cursorStale

end Decode

/-! ## What is encoded is decoded -/

theorem utf8Decode_utf8Encode (cs : List Char) : utf8Decode (utf8Encode cs) = some cs := by
  have hdecode : (utf8Encode cs).toByteArray.utf8Decode? = some cs.toArray :=
    List.utf8Decode?_utf8Encode
  rw [utf8Decode, hdecode, Option.map_some]

theorem utf8Encode_ne_nil {cs : List Char} (h : cs ≠ []) : utf8Encode cs ≠ [] := by
  intro hnil
  have hdecode := utf8Decode_utf8Encode cs
  rw [hnil] at hdecode
  have hempty : utf8Decode [] = some [] := utf8Decode_utf8Encode []
  exact h (Option.some.inj (hdecode.symm.trans hempty))

/-- The order of the entries does not show. -/
theorem dumps_sortKeys (entries : Cursor) :
    (Json.object (sortKeys entries)).dumps = (Json.object entries).dumps := by
  rw [dumps_object, dumps_object, CompactJson.Value.sortKeys_sortKeys]

section RoundTrip

variable (t : UnicodeTables) (floats : List Char → PyFloat) {cursor : Cursor}
  (hc : cursor.IsKey)

include hc

/-- A dictionary of numbers is read with its entries in order. -/
theorem reads_cursor :
    Reads floats (.object (sortKeys cursor)) (Json.object (sortKeys cursor)).dumps := by
  rw [dumps_sortKeys]
  refine Reads.object hc.nodup fun e he => ?_
  obtain ⟨n, hn⟩ := hc.int e he
  rw [hn, Json.dumps]
  exact Reads.int n

omit hc in
/-- No key of a payload is repeated. -/
theorem nodup_payload (cursor : Cursor) (scanId dataVersion : Int) (filterKey : String) :
    ((cursorPayload cursor scanId dataVersion filterKey).map Prod.fst).Nodup := by
  show ["cursor", "scan_id", "data_version", "filter"].Nodup
  decide

/-- The payload is read with its entries in order. -/
theorem loads_payload (scanId dataVersion : Int) (filterKey : String) :
    loads floats (Json.object (cursorPayload cursor scanId dataVersion filterKey)).dumps =
      some (.object (sortKeys (cursorPayload (sortKeys cursor) scanId dataVersion filterKey))) := by
  have hdumps : (Json.object (cursorPayload cursor scanId dataVersion filterKey)).dumps =
      (Json.object (cursorPayload (sortKeys cursor) scanId dataVersion filterKey)).dumps := by
    have hentries : Json.dumpEntries (cursorPayload cursor scanId dataVersion filterKey) =
        Json.dumpEntries (cursorPayload (sortKeys cursor) scanId dataVersion filterKey) := by
      simp only [Json.dumpEntries_eq_map, cursorPayload, List.map_cons, List.map_nil,
        dumps_sortKeys]
    rw [Json.dumps, hentries, ← Json.dumps]
  rw [hdumps]
  refine (Reads.object (nodup_payload _ scanId dataVersion filterKey) ?_).loads
  intro e he
  simp only [cursorPayload, List.mem_cons, List.not_mem_nil, or_false] at he
  rcases he with rfl | rfl | rfl | rfl
  · exact reads_cursor floats hc
  · exact Reads.int scanId
  · exact Reads.int dataVersion
  · exact Reads.text filterKey

/-- **A cursor is read back with the scan, the version and the filter it was made for, and refused
with every other.** -/
theorem decodeKeysetCursor_encode (scanId dataVersion scanId' dataVersion' : Int)
    (filterKey filterKey' : String) :
    ∃ text, encodeKeysetCursor (some cursor) scanId dataVersion filterKey = some text ∧
      decodeKeysetCursor t floats (.text text) scanId' dataVersion' filterKey' =
        if scanId = scanId' ∧ dataVersion = dataVersion' ∧ filterKey = filterKey' then
          .ok (some (sortKeys cursor)) else .error .cursorStale := by
  obtain ⟨e, cursor, rfl⟩ := List.exists_cons_of_ne_nil hc.ne_nil
  let raw := (Json.object (cursorPayload (e :: cursor) scanId dataVersion filterKey)).dumps
  let payload := cursorPayload (sortKeys (e :: cursor)) scanId dataVersion filterKey
  refine ⟨String.ofList (Base64.encode (utf8Encode raw)), rfl, ?_⟩
  have hraw : raw ≠ [] := by
    show (Json.object _).dumps ≠ []
    rw [dumps_object]
    simp
  have htext : Base64.encode (utf8Encode raw) ≠ [] :=
    Base64.encode_ne_nil (utf8Encode_ne_nil hraw)
  have htruthy : (Json.text (String.ofList (Base64.encode (utf8Encode raw)))).truthy ≠ false := by
    simpa [Json.truthy] using htext
  have hascii : (Base64.encode (utf8Encode raw)).all (fun c => c.toNat < 128) = true :=
    List.all_eq_true.2 fun c hc => decide_eq_true (Base64.lt_of_mem_encode hc)
  have hpayload : payloadOf t floats (.text (String.ofList (Base64.encode (utf8Encode raw)))) =
      some (sortKeys payload) := by
    have hloads : loads floats raw = some (.object (sortKeys payload)) :=
      loads_payload floats hc scanId dataVersion filterKey
    simp only [payloadOf, Json.str, String.toList_ofList, if_pos hascii, Base64.decode_encode,
      Option.bind_eq_bind, Option.bind_some, utf8Decode_utf8Encode, hloads]
  have hkeys : (payload.map Prod.fst).Nodup := nodup_payload _ scanId dataVersion filterKey
  have hget : ∀ key, Json.get (sortKeys payload) key = Json.get payload key := fun key => by
    rw [Json.get, Json.getD, lookup_sortKeys hkeys, ← Json.getD, ← Json.get]
  have hscan : Json.get payload "scan_id" = .int scanId := rfl
  have hversion : Json.get payload "data_version" = .int dataVersion := rfl
  have hfilter : ((Json.get payload "filter").or (.text "")).str t = filterKey := by
    have hget : Json.get payload "filter" = .text filterKey := rfl
    rw [hget, Json.or]
    split
    · rfl
    · rename_i hfalse
      simp only [Json.truthy, decide_eq_true_eq, ne_eq, not_not] at hfalse
      rw [hfalse]
      rfl
  have hcursor : Json.get payload "cursor" = .object (sortKeys (e :: cursor)) := rfl
  rw [decodeKeysetCursor, if_neg htruthy, hpayload, Option.bind_some, boundCursor]
  simp only [hget, hscan, hversion, hfilter, hcursor, Json.toInt]
  by_cases hsame : scanId = scanId' ∧ dataVersion = dataVersion' ∧ filterKey = filterKey'
  · rw [if_pos hsame, if_neg (by simp [hsame])]
  · rw [if_neg hsame, if_pos]
    by_contra hnot
    simp only [not_or, ne_eq, not_not] at hnot
    exact hsame hnot

end RoundTrip

/-! ## Pages through cursors -/

section Requests

variable (t : UnicodeTables) (floats : List Char → PyFloat) (scanId dataVersion : Int)
  (filterKey : String)

/-- The pages of one scan, version and filter as a client sees them; the number counts its
requests. -/
def throughCursors {β : Type} (page : Nat → Option Cursor → Except PageError (List β × Option Cursor))
    (i : Nat) (token : Option String) : Except PageError (List β × Option String) := do
  let cursor ← decodeKeysetCursor t floats ((token.map Json.text).getD .null) scanId dataVersion
    filterKey
  let (rows, next) ← page i cursor
  pure (rows, encodeKeysetCursor next scanId dataVersion filterKey)

/-- The cursor of a page, encoded. -/
def tokenOf (cursor : Cursor) : String :=
  (encodeKeysetCursor (some cursor) scanId dataVersion filterKey).getD ""

variable {t floats scanId dataVersion filterKey}

/-- **Keyset pages stay keyset pages.**  A page gets its cursor with the entries in order. -/
theorem serves_throughCursors {α β κ : Type} [LinearOrder κ] {key : α → κ} {rows : List α}
    {shown : α → β} {limits : Nat → Nat} {cursorOf : κ → Cursor}
    {page : Nat → Option Cursor → Except PageError (List β × Option Cursor)}
    (hkey : ∀ k, (cursorOf k).IsKey)
    (hfirst : ∀ i, page i none = .ok ((Keyset.pageAt key (limits i) rows ⊥).rows.map shown,
      (Keyset.pageAt key (limits i) rows ⊥).next.map cursorOf))
    (hnext : ∀ i (k : κ), page i (some (sortKeys (cursorOf k))) =
      .ok ((Keyset.pageAt key (limits i) rows k).rows.map shown,
        (Keyset.pageAt key (limits i) rows k).next.map cursorOf)) :
    Keyset.Serves (throughCursors t floats scanId dataVersion filterKey page) key rows shown
      (fun k => tokenOf scanId dataVersion filterKey (cursorOf k)) limits := by
  have hencode : ∀ next : Option κ,
      encodeKeysetCursor (next.map cursorOf) scanId dataVersion filterKey =
        next.map fun k => tokenOf scanId dataVersion filterKey (cursorOf k) := by
    intro next
    cases next with
    | none => rfl
    | some k =>
      obtain ⟨text, htext, _⟩ := decodeKeysetCursor_encode t floats (hkey k) scanId dataVersion scanId
        dataVersion filterKey filterKey
      rw [Option.map_some, Option.map_some, tokenOf, htext, Option.getD_some]
  constructor
  case first =>
    intro i
    have hdecode : decodeKeysetCursor t floats .null scanId dataVersion filterKey = .ok none := rfl
    rw [throughCursors, Option.map_none, Option.getD_none, hdecode, Outcome.ok_bind, hfirst,
      Outcome.ok_bind]
    simp only [hencode]
    rfl
  case next =>
    intro i k
    obtain ⟨text, htext, hdecode⟩ := decodeKeysetCursor_encode t floats (hkey k) scanId dataVersion
      scanId dataVersion filterKey filterKey
    rw [if_pos ⟨rfl, rfl, rfl⟩] at hdecode
    rw [throughCursors, tokenOf, htext, Option.getD_some, Option.map_some, Option.getD_some, hdecode,
      Outcome.ok_bind, hnext, Outcome.ok_bind]
    simp only [hencode]
    rfl

end Requests

end Application

end FosCoverage
