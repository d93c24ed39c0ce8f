import Collate.Search.Response
import Collate.Wire.Value

/-!
# Requests and responses in JSON

Records are objects with a member for each part, in a fixed order, and are read from arrays of
their parts as well.  A part that may be left out has its usual value then.
-/

namespace Collate

def SortDirection.codec : Codec SortDirection where
  encode
    | .ascending => .text "ASCENDING"
    | .descending => .text "DESCENDING"
  decode
    | .string (some "ASCENDING") => some .ascending
    | .string (some "DESCENDING") => some .descending
    | .object [(some "ASCENDING", .null)] => some .ascending
    | .object [(some "DESCENDING", .null)] => some .descending
    | _ => none

def SortSpec.codec : Codec SortSpec where
  encode s :=
    .record [("order", Codec.smallNatural.encode s.order),
      ("direction", SortDirection.codec.encode s.direction)]
  decode j :=
    match j.members? ["order", "direction"] with
    | some [order, direction] => do
      return ⟨← Codec.smallNatural.required order, ← SortDirection.codec.required direction⟩
    | _ => none

def Field.codec : Codec Field where
  encode f :=
    .record [("name", Codec.text.encode f.name),
      ("expression", Codec.text.nullable.encode f.expression),
      ("sort", SortSpec.codec.nullable.encode f.sort),
      ("group", Codec.natural.nullable.encode f.group)]
  decode j :=
    match j.members? ["name", "expression", "sort", "group"] with
    | some [name, expression, sort, group] => do
      return ⟨← Codec.text.required name, ← Codec.text.nullable.orElse none expression,
        ← SortSpec.codec.nullable.orElse none sort, ← Codec.natural.nullable.orElse none group⟩
    | _ => none

def Sizes.codec : Codec Sizes :=
  Codec.natural.list.via Sizes.declared Sizes.mk

def QueryKey.codec : Codec QueryKey :=
  Codec.text.via QueryKey.id QueryKey.mk

def Window.codec : Codec Window where
  encode w :=
    .record [("offset", Codec.natural.encode w.offset), ("length", Codec.natural.encode w.length)]
  decode j :=
    match j.members? ["offset", "length"] with
    | some [offset, length] => do
      return ⟨← Codec.natural.required offset, ← Codec.natural.required length⟩
    | _ => none

def Component.codec : Codec Component where
  encode c :=
    .record [("componentId", Codec.text.encode c.id),
      ("fields", Field.codec.list.encode c.fields),
      ("showDetail", Codec.bool.encode c.showDetail),
      ("maxResults", Sizes.codec.nullable.encode c.maxResults),
      ("storeSize", Sizes.codec.encode c.storeSize),
      ("requestedRange", Window.codec.nullable.encode c.range)]
  decode j :=
    match j.members? ["componentId", "fields", "showDetail", "maxResults", "storeSize",
        "requestedRange"] with
    | some [id, fields, showDetail, maxResults, storeSize, range] => do
      return ⟨← Codec.text.required id, ← Field.codec.list.required fields,
        ← Codec.bool.orElse false showDetail, ← Sizes.codec.nullable.orElse none maxResults,
        ← Sizes.codec.orElse .unbounded storeSize, ← Window.codec.nullable.orElse none range⟩
    | _ => none

def SearchRequest.codec : Codec SearchRequest where
  encode r :=
    .record [("key", QueryKey.codec.encode r.key),
      ("components", Component.codec.list.encode r.components),
      ("incremental", Codec.bool.encode r.incremental),
      ("timeoutMs", Codec.natural.nullable.encode r.timeout)]
  decode j :=
    match j.members? ["key", "components", "incremental", "timeoutMs"] with
    | some [key, components, incremental, timeout] => do
      return ⟨← QueryKey.codec.required key, ← Component.codec.list.required components,
        ← Codec.bool.orElse true incremental, ← Codec.natural.nullable.orElse none timeout⟩
    | _ => none

def ShownRow.codec : Codec ShownRow where
  encode r :=
    .record [("groupKey", Key.codec.nullable.encode r.groupKey),
      ("depth", Codec.natural.encode r.depth),
      ("values", Val.codec.nullable.list.encode r.values)]
  decode j :=
    match j.members? ["groupKey", "depth", "values"] with
    | some [groupKey, depth, values] => do
      return ⟨← Key.codec.nullable.orElse none groupKey, ← Codec.natural.required depth,
        ← Val.codec.nullable.list.required values⟩
    | _ => none

def TableResult.codec : Codec TableResult where
  encode t :=
    .record [("componentId", Codec.text.encode t.component),
      ("rows", ShownRow.codec.list.encode t.rows),
      ("resultRange", Window.codec.encode t.range),
      ("totalResults", Codec.natural.encode t.totalResults)]
  decode j :=
    match j.members? ["componentId", "rows", "resultRange", "totalResults"] with
    | some [component, rows, range, totalResults] => do
      return ⟨← Codec.text.required component, ← ShownRow.codec.list.required rows,
        ← Window.codec.required range, ← Codec.natural.required totalResults⟩
    | _ => none

def SearchResponse.codec : Codec SearchResponse where
  encode r :=
    .record [("results", TableResult.codec.list.encode r.results),
      ("highlights", Codec.text.list.encode r.highlights),
      ("errors", Codec.text.list.encode r.errors),
      ("complete", Codec.bool.encode r.complete)]
  decode j :=
    match j.members? ["results", "highlights", "errors", "complete"] with
    | some [results, highlights, errors, complete] => do
      return ⟨← TableResult.codec.list.required results, ← Codec.text.list.required highlights,
        ← Codec.text.list.required errors, ← Codec.bool.required complete⟩
    | _ => none

end Collate
