/-!
# `Json`: JSON values

The value tree of a JSON document. Numbers keep their decimal text, so
no width or rounding is chosen here; objects keep their entries in
order, repeated keys included.

`collapse` is what becomes of a tree that is read into a map of keys: of
two entries with one key the later value stays, in the place of the
earlier. `collapse_of_distinct` says that it changes nothing in a tree
that repeats no key.
-/

set_option autoImplicit false

/-- A JSON value. -/
inductive Json where
  | null
  | bool (value : Bool)
  | num (text : String)
  | str (value : String)
  | arr (items : List Json)
  | obj (entries : List (String × Json))
deriving Repr, Inhabited

namespace Json

mutual

/-- Equality of values is decidable, by recursion on both trees. -/
def decEq : (a b : Json) → Decidable (a = b)
  | .null, .null => isTrue rfl
  | .bool a, .bool b => decidable_of_iff (a = b) (by simp)
  | .num a, .num b => decidable_of_iff (a = b) (by simp)
  | .str a, .str b => decidable_of_iff (a = b) (by simp)
  | .arr as, .arr bs =>
      match decEqItems as bs with
      | isTrue h => isTrue (by rw [h])
      | isFalse h => isFalse (by simpa using h)
  | .obj as, .obj bs =>
      match decEqEntries as bs with
      | isTrue h => isTrue (by rw [h])
      | isFalse h => isFalse (by simpa using h)
  | .null, .bool _ | .null, .num _ | .null, .str _ | .null, .arr _ | .null, .obj _
  | .bool _, .null | .bool _, .num _ | .bool _, .str _ | .bool _, .arr _ | .bool _, .obj _
  | .num _, .null | .num _, .bool _ | .num _, .str _ | .num _, .arr _ | .num _, .obj _
  | .str _, .null | .str _, .bool _ | .str _, .num _ | .str _, .arr _ | .str _, .obj _
  | .arr _, .null | .arr _, .bool _ | .arr _, .num _ | .arr _, .str _ | .arr _, .obj _
  | .obj _, .null | .obj _, .bool _ | .obj _, .num _ | .obj _, .str _ | .obj _, .arr _ =>
      isFalse (by simp)

/-- `decEq` over the items of an array. -/
def decEqItems : (as bs : List Json) → Decidable (as = bs)
  | [], [] => isTrue rfl
  | [], _ :: _ => isFalse (by simp)
  | _ :: _, [] => isFalse (by simp)
  | a :: as, b :: bs =>
      match decEq a b, decEqItems as bs with
      | isTrue ha, isTrue has => isTrue (by rw [ha, has])
      | isFalse ha, _ => isFalse fun h => ha (List.cons.inj h).1
      | _, isFalse has => isFalse fun h => has (List.cons.inj h).2

/-- `decEq` over the entries of an object. -/
def decEqEntries : (as bs : List (String × Json)) → Decidable (as = bs)
  | [], [] => isTrue rfl
  | [], _ :: _ => isFalse (by simp)
  | _ :: _, [] => isFalse (by simp)
  | (k, a) :: as, (l, b) :: bs =>
      match decEq a b, decEqEntries as bs with
      | isTrue ha, isTrue has =>
          if hk : k = l then isTrue (by rw [hk, ha, has])
          else isFalse fun h => hk (congrArg Prod.fst (List.cons.inj h).1)
      | isFalse ha, _ => isFalse fun h => ha (congrArg Prod.snd (List.cons.inj h).1)
      | _, isFalse has => isFalse fun h => has (List.cons.inj h).2

end

instance : DecidableEq Json := decEq

/-! ### Objects as maps -/

/-- The entries of an object. -/
abbrev Entries : Type := List (String × Json)

/-- The keys of an object, in order. -/
def keys (es : Entries) : List String := es.map Prod.fst

/-- Insert into a map that keeps the order of its keys. -/
def insertEntry (es : Entries) (e : String × Json) : Entries :=
  if e.1 ∈ keys es then es.map fun old => if old.1 = e.1 then e else old
  else es ++ [e]

/-- A map read entry by entry. -/
def ofEntries (es : Entries) : Entries := es.foldl insertEntry []

mutual

/-- A tree read into maps. -/
def collapse : Json → Json
  | .arr items => .arr (collapseItems items)
  | .obj es => .obj (ofEntries (collapseEntries es))
  | .null => .null
  | .bool value => .bool value
  | .num text => .num text
  | .str value => .str value

def collapseItems : List Json → List Json
  | [] => []
  | item :: rest => collapse item :: collapseItems rest

def collapseEntries : Entries → Entries
  | [] => []
  | (key, value) :: rest => (key, collapse value) :: collapseEntries rest

end

mutual

/-- No object in the tree repeats a key. -/
def distinct : Json → Bool
  | .arr items => distinctItems items
  | .obj es => decide (keys es).Nodup && distinctEntries es
  | .null | .bool _ | .num _ | .str _ => true

def distinctItems : List Json → Bool
  | [] => true
  | item :: rest => distinct item && distinctItems rest

def distinctEntries : Entries → Bool
  | [] => true
  | (_, value) :: rest => distinct value && distinctEntries rest

end

theorem ofEntries_append_of_nodup (done es : Entries) (h : (keys (done ++ es)).Nodup) :
    es.foldl insertEntry done = done ++ es := by
  induction es generalizing done with
  | nil => rw [List.foldl_nil, List.append_nil]
  | cons e rest ih =>
      have hnew : e.1 ∉ keys done := by
        intro hmem
        rw [keys, List.map_append, List.nodup_append] at h
        exact h.2.2 e.1 hmem e.1 (by simp) rfl
      rw [List.foldl_cons, insertEntry, if_neg hnew, ih]
      · simp
      · simpa using h

/-- A map read from distinct keys is what was read. -/
theorem ofEntries_of_nodup {es : Entries} (h : (keys es).Nodup) : ofEntries es = es :=
  ofEntries_append_of_nodup [] es h

@[simp] theorem keys_collapseEntries (es : Entries) : keys (collapseEntries es) = keys es := by
  induction es with
  | nil => rfl
  | cons e rest ih =>
      obtain ⟨key, value⟩ := e
      show key :: keys (collapseEntries rest) = key :: keys rest
      rw [ih]

mutual

/-- Nothing to collapse. -/
theorem collapse_of_distinct : ∀ j : Json, distinct j = true → collapse j = j
  | .null, _ => rfl
  | .bool _, _ => rfl
  | .num _, _ => rfl
  | .str _, _ => rfl
  | .arr items, h => by
      rw [collapse, collapseItems_of_distinct items h]
  | .obj es, h => by
      rw [distinct, Bool.and_eq_true, decide_eq_true_eq] at h
      rw [collapse, collapseEntries_of_distinct es h.2, ofEntries_of_nodup h.1]

theorem collapseItems_of_distinct :
    ∀ items : List Json, distinctItems items = true → collapseItems items = items
  | [], _ => rfl
  | item :: rest, h => by
      rw [distinctItems, Bool.and_eq_true] at h
      rw [collapseItems, collapse_of_distinct item h.1, collapseItems_of_distinct rest h.2]

theorem collapseEntries_of_distinct :
    ∀ es : Entries, distinctEntries es = true → collapseEntries es = es
  | [], _ => rfl
  | (_, value) :: rest, h => by
      rw [distinctEntries, Bool.and_eq_true] at h
      rw [collapseEntries, collapse_of_distinct value h.1, collapseEntries_of_distinct rest h.2]

end

/-! ### The strings of a tree -/

mutual

/-- Change every string value. Keys stay. -/
def mapStrings (f : String → String) : Json → Json
  | .str value => .str (f value)
  | .arr items => .arr (mapStringsItems f items)
  | .obj es => .obj (mapStringsEntries f es)
  | .null => .null
  | .bool value => .bool value
  | .num text => .num text

def mapStringsItems (f : String → String) : List Json → List Json
  | [] => []
  | item :: rest => mapStrings f item :: mapStringsItems f rest

def mapStringsEntries (f : String → String) : Entries → Entries
  | [] => []
  | (key, value) :: rest => (key, mapStrings f value) :: mapStringsEntries f rest

end

mutual

/-- The string values, in order. -/
def strings : Json → List String
  | .str value => [value]
  | .arr items => stringsItems items
  | .obj es => stringsEntries es
  | .null | .bool _ | .num _ => []

def stringsItems : List Json → List String
  | [] => []
  | item :: rest => strings item ++ stringsItems rest

def stringsEntries : Entries → List String
  | [] => []
  | (_, value) :: rest => strings value ++ stringsEntries rest

end

mutual

theorem strings_mapStrings (f : String → String) :
    ∀ j : Json, strings (mapStrings f j) = (strings j).map f
  | .null | .bool _ | .num _ | .str _ => rfl
  | .arr items => by
      rw [mapStrings, strings, strings, stringsItems_mapStrings f items]
  | .obj es => by
      rw [mapStrings, strings, strings, stringsEntries_mapStrings f es]

theorem stringsItems_mapStrings (f : String → String) :
    ∀ items : List Json, stringsItems (mapStringsItems f items) = (stringsItems items).map f
  | [] => rfl
  | item :: rest => by
      rw [mapStringsItems, stringsItems, stringsItems, List.map_append, strings_mapStrings f item,
        stringsItems_mapStrings f rest]

theorem stringsEntries_mapStrings (f : String → String) :
    ∀ es : Entries, stringsEntries (mapStringsEntries f es) = (stringsEntries es).map f
  | [] => rfl
  | (_, value) :: rest => by
      rw [mapStringsEntries, stringsEntries, stringsEntries, List.map_append,
        strings_mapStrings f value, stringsEntries_mapStrings f rest]

end

mutual

/-- Two changes agree on a tree when they agree on its strings. -/
theorem mapStrings_eq_iff (f g : String → String) :
    ∀ j : Json, mapStrings f j = mapStrings g j ↔ ∀ s ∈ strings j, f s = g s
  | .null | .bool _ | .num _ => by simp [mapStrings, strings]
  | .str _ => by simp [mapStrings, strings]
  | .arr items => by
      rw [mapStrings, mapStrings, strings, Json.arr.injEq]
      exact mapStringsItems_eq_iff f g items
  | .obj es => by
      rw [mapStrings, mapStrings, strings, Json.obj.injEq]
      exact mapStringsEntries_eq_iff f g es

theorem mapStringsItems_eq_iff (f g : String → String) :
    ∀ items : List Json,
      mapStringsItems f items = mapStringsItems g items ↔ ∀ s ∈ stringsItems items, f s = g s
  | [] => by simp [mapStringsItems, stringsItems]
  | item :: rest => by
      rw [mapStringsItems, mapStringsItems, stringsItems, List.cons.injEq, List.forall_mem_append,
        mapStrings_eq_iff f g item, mapStringsItems_eq_iff f g rest]

theorem mapStringsEntries_eq_iff (f g : String → String) :
    ∀ es : Entries,
      mapStringsEntries f es = mapStringsEntries g es ↔ ∀ s ∈ stringsEntries es, f s = g s
  | [] => by simp [mapStringsEntries, stringsEntries]
  | (_, value) :: rest => by
      rw [mapStringsEntries, mapStringsEntries, stringsEntries, List.cons.injEq, Prod.mk.injEq,
        List.forall_mem_append, mapStrings_eq_iff f g value, mapStringsEntries_eq_iff f g rest]
      exact and_congr_left' (and_iff_right rfl)

end

mutual

theorem mapStrings_mapStrings (f g : String → String) :
    ∀ j : Json, mapStrings f (mapStrings g j) = mapStrings (fun s => f (g s)) j
  | .null | .bool _ | .num _ | .str _ => rfl
  | .arr items => by
      rw [mapStrings, mapStrings, mapStrings, mapStringsItems_mapStrings f g items]
  | .obj es => by
      rw [mapStrings, mapStrings, mapStrings, mapStringsEntries_mapStrings f g es]

theorem mapStringsItems_mapStrings (f g : String → String) :
    ∀ items : List Json,
      mapStringsItems f (mapStringsItems g items) = mapStringsItems (fun s => f (g s)) items
  | [] => rfl
  | item :: rest => by
      rw [mapStringsItems, mapStringsItems, mapStringsItems, mapStrings_mapStrings f g item,
        mapStringsItems_mapStrings f g rest]

theorem mapStringsEntries_mapStrings (f g : String → String) :
    ∀ es : Entries,
      mapStringsEntries f (mapStringsEntries g es) = mapStringsEntries (fun s => f (g s)) es
  | [] => rfl
  | (_, value) :: rest => by
      rw [mapStringsEntries, mapStringsEntries, mapStringsEntries, mapStrings_mapStrings f g value,
        mapStringsEntries_mapStrings f g rest]

end

end Json
