import Tether.Plugin.Fingerprints
import Tether.Plugin.ReceiveSession
import Tether.Semantics.Loop
import Tether.Text.Memory

/-!
# Scanners

The loops that look for something in a text from the network, one access to memory after
the other. Positions are those of the text, `junk` is what a fresh buffer holds, and `turns`
is how often a loop may turn. Each scanner comes to its end without leaving the text or its
buffer, with what the reader on lists finds.

## Main definitions

* `Scanners.jsonFindStr`, `jsonDupStr`, `jsonEqStr` — the string member lookup
* `Scanners.requestMember` — the name and the fingerprint of a request
* `Scanners.offerText` — the text of an offer
* `Scanners.localFingerprint` — the fingerprint of a description
* `Scanners.parseMidFromDesc` — the mid of a track's description

## Main results

* `yields_jsonFindStr`, `yields_jsonDupStr`, `yields_jsonEqStr`, `requestMember_eq`,
  `yields_offerText`, `yields_localFingerprint`, `yields_parseMidFromDesc` — what each of
  them finds
* `scanners_stay_inside` — all of them end, without a fault
-/

namespace Tether.Plugin.Scanners

open Text Semantics Js

/-! ### The lookup of a string member -/

/-- Past the separator: `while (*after == ':' || *after == ' ')`. -/
def separatorBody (json : CString) (after : ℕ) : Option (ℕ ⊕ ℕ) := do
  let b ← json.read after
  if b = 58 ∨ b = 32 then some (.inl (after + 1)) else some (.inr after)

/-- To the end of the value: `while (*p && *p != '"')`. -/
def valueBody (json : CString) (p : ℕ) : Option (ℕ ⊕ ℕ) := do
  let b ← json.read p
  if b ≠ 0 ∧ b ≠ quote then
    if b = backslash then
      let escaped ← json.read (p + 1)
      if escaped ≠ 0 then some (.inl (p + 2)) else some (.inl (p + 1))
    else some (.inl (p + 1))
  else some (.inr p)

/-- What is made of an occurrence of the key: the search goes on behind it, or it is the
key of a value, with this start and this length. -/
def occurrence (json : CString) (key : Bytes) (turns p : ℕ) :
    Option (ℕ ⊕ Option (ℕ × ℕ)) :=
  -- Require quote-key-quote.
  if p = 0 then some (.inl (p + 1))
  else do
    let before ← json.read (p - 1)
    if before ≠ quote then some (.inl (p + 1))
    else
      let closing ← json.read (p + key.length)
      if closing ≠ quote then some (.inl (p + 1))
      else
        let after ← loop (separatorBody json) turns (p + key.length + 1)
        let opening ← json.read after
        if opening ≠ quote then some (.inl (p + 1))
        else
          let start := after + 1
          let stop ← loop (valueBody json) turns start
          some (.inr (some (start, stop - start)))

/-- `while ((p = strstr(p, key)) != NULL)` -/
def keyBody (json : CString) (key : Bytes) (turns p : ℕ) : Option (ℕ ⊕ Option (ℕ × ℕ)) := do
  match ← json.strstr p key with
  | none => some (.inr none)
  | some p => occurrence json key turns p

def jsonFindStr (json : CString) (key : Bytes) (turns : ℕ) : Option (Option (ℕ × ℕ)) :=
  loop (keyBody json key turns) turns 0

def jsonEqStr (json : CString) (key value : Bytes) (turns : ℕ) : Option Bool := do
  match ← jsonFindStr json key turns with
  | none => some false
  | some (v, vlen) =>
    if value.length = vlen then Cells.same vlen (json.cells.drop v) value else some false

def jsonDupStr (junk : ℕ → UInt8) (json : CString) (key : Bytes) (turns : ℕ) :
    Option (Option Bytes) := do
  match ← jsonFindStr json key turns with
  | none => some none
  | some (v, vlen) =>
    let s ← Cells.copy vlen (json.cells.drop v) (Cells.alloc junk (vlen + 1))
    let s ← Cells.store s vlen 0
    some (some s)

variable {json : CString} {p turns : ℕ}

/-- One byte of the text after the other, as many as there are. -/
theorem yields_separator (inside : p ≤ json.length) (enough : json.length < turns) :
    Yields (loop (separatorBody json) turns p) fun after =>
      after ≤ json.length ∧
        json.suffix after = (json.suffix p).dropWhile fun b => b = 58 || b = 32 := by
  refine yields_loop
    (fun after => after ≤ json.length ∧
      ((json.suffix after).dropWhile fun b => b = 58 || b = 32) =
        (json.suffix p).dropWhile fun b => b = 58 || b = 32)
    (json.length - ·) ?_ ⟨inside, rfl⟩ (by omega)
  rintro after ⟨within, same⟩
  rw [← same]
  rcases CString.read_cases within with ⟨read, nothing⟩ | ⟨b, read, -, cons, more⟩
  · simp [separatorBody, read, nothing, Turn, within]
  · by_cases separator : b = 58 ∨ b = 32
    · have skipped : ((json.suffix after).dropWhile fun b => b = 58 || b = 32) =
          (json.suffix (after + 1)).dropWhile fun b => b = 58 || b = 32 := by
        rw [cons, List.dropWhile_cons_of_pos (by simpa using separator)]
      rw [separatorBody, read]
      simp only [Option.bind_eq_bind, Option.bind_some, if_pos separator, yields_some, Turn,
        skipped, and_true]
      omega
    · have stays : ((json.suffix after).dropWhile fun b => b = 58 || b = 32) =
          json.suffix after := by
        rw [cons, List.dropWhile_cons_of_neg (by simpa using separator)]
      rw [separatorBody, read]
      simp only [Option.bind_eq_bind, Option.bind_some, if_neg separator, yields_some, Turn,
        stays, and_true]
      exact within

theorem stringSpan_prefix (start : Bytes) : stringSpan start <+: start := by
  induction start using stringSpan.induct with
  | case1 b rest ih =>
    rw [stringSpan]
    exact List.cons_prefix_cons.mpr ⟨rfl, List.cons_prefix_cons.mpr ⟨rfl, ih⟩⟩
  | case2 rest notEscape => exact List.nil_prefix
  | case3 b rest notEscape notQuote ih =>
    rw [stringSpan_cons notQuote (eq_nil_of_not_escape notEscape)]
    exact List.cons_prefix_cons.mpr ⟨rfl, ih⟩
  | case4 => exact List.nil_prefix

/-- To the closing quote, over a byte or an escape at a time. -/
theorem yields_value (inside : p ≤ json.length) (enough : json.length < turns) :
    Yields (loop (valueBody json) turns p) fun stop =>
      stop = p + (stringSpan (json.suffix p)).length := by
  refine yields_loop
    (fun stop => stop ≤ json.length ∧
      stop + (stringSpan (json.suffix stop)).length = p + (stringSpan (json.suffix p)).length)
    (json.length - ·) ?_ ⟨inside, rfl⟩ (by omega)
  rintro stop ⟨within, same⟩
  rw [← same, valueBody]
  rcases CString.read_cases within with ⟨read, nothing⟩ | ⟨b, read, nonzero, cons, more⟩
  · rw [read, nothing]
    exact ⟨_, rfl, rfl⟩
  rw [read, cons]
  by_cases closing : b = quote
  · subst closing
    exact ⟨_, rfl, rfl⟩
  simp only [Option.bind_eq_bind, Option.bind_some, if_pos (And.intro nonzero closing)]
  by_cases escape : b = backslash
  · subst escape
    rw [if_pos rfl]
    rcases CString.read_cases more with ⟨read, nothing⟩ | ⟨e, read, nonzero, cons, more⟩
    · -- a backslash at the end of the text stands for itself
      rw [read, nothing, stringSpan_cons closing fun _ => rfl]
      simp only [Option.bind_some, ne_eq, not_true_eq_false, if_false, yields_some, Turn, nothing,
        List.length_cons]
      omega
    · rw [read, cons, stringSpan]
      simp only [Option.bind_some, if_pos nonzero, yields_some, Turn, List.length_cons,
        Nat.add_assoc, Nat.reduceAdd]
      omega
  · rw [if_neg escape, stringSpan_cons closing fun same => absurd same escape]
    simp only [yields_some, Turn, List.length_cons]
    omega

/-! The search itself goes on behind the first byte of an occurrence, so that what it has
passed is told by the byte before it. -/

/-- The byte before a position. -/
def byteBefore (json : CString) (p : ℕ) : Option UInt8 := (json.bytes.take p).getLast?

theorem byteBefore_succ {b : UInt8} {rest : Bytes} (cons : json.suffix p = b :: rest) :
    byteBefore json (p + 1) = some b := by
  have here : json.bytes[p]? = some b := by
    rw [← List.head?_drop]
    exact congrArg List.head? cons
  rw [byteBefore, List.take_add_one, here, Option.toList_some, List.getLast?_concat]

theorem byteBefore_of_split {q : ℕ} {skipped : Bytes}
    (split : json.suffix p = skipped ++ json.suffix q) (le : p ≤ q) (inside : q ≤ json.length) :
    byteBefore json q = skipped.getLast?.or (byteBefore json p) := by
  have lengths := congrArg List.length split
  rw [List.length_append, CString.suffix_length, CString.suffix_length] at lengths
  obtain rfl : q = p + skipped.length := by omega
  rw [byteBefore, byteBefore, List.take_add, ← List.getLast?_append]
  congr 2
  rw [CString.suffix] at split
  rw [split, List.take_left]

theorem read_before (positive : p ≠ 0) (inside : p ≤ json.length) :
    ∃ b, json.read (p - 1) = some b ∧ byteBefore json p = some b := by
  obtain ⟨p, rfl⟩ := Nat.exists_eq_succ_of_ne_zero positive
  rcases CString.read_cases (Nat.le_of_succ_le inside) with ⟨-, nothing⟩ | ⟨b, read, -, cons, -⟩
  · have short := congrArg List.length nothing
    rw [CString.suffix_length] at short
    exact absurd short (by simpa using by omega)
  · exact ⟨b, read, byteBefore_succ cons⟩

/-- Where the key does not start, no name does. -/
theorem stringAt_of_absent {key rest : Bytes} (absent : ¬ key.isPrefixOf rest)
    (previous : Option UInt8) : stringAt key previous rest = none := by
  rw [stringAt, if_neg]
  rintro ⟨-, starts⟩
  have here : key <+: rest := (List.prefix_append key [quote]).trans starts
  exact absent (List.isPrefixOf_iff_prefix.mpr here)

/-- The text behind a name and its separator is a string, or there is no value. -/
theorem stringAt_of_name {key text start : Bytes} {previous : Option UInt8}
    (name : previous = some quote ∧ key ++ [quote] <+: text)
    (opens : ((text.drop (key.length + 1)).dropWhile fun b => b = 58 || b = 32) =
      quote :: start) :
    stringAt key previous text = some (stringSpan start) := by
  rw [stringAt, if_pos name, opens]
  rfl

theorem stringAt_of_other {key text : Bytes} {previous : Option UInt8}
    (name : previous = some quote ∧ key ++ [quote] <+: text)
    (other : ∀ start, ((text.drop (key.length + 1)).dropWhile fun b => b = 58 || b = 32) ≠
      quote :: start) :
    stringAt key previous text = none := by
  rw [stringAt, if_pos name]
  split
  · rename_i start opens
    exact absurd opens (other start)
  · rfl

theorem jsonFindFrom_of_absent {key rest : Bytes} (absent : strstr key rest = none)
    (previous : Option UInt8) : jsonFindFrom key previous rest = none := by
  induction rest generalizing previous with
  | nil =>
    rw [strstr] at absent
    split_ifs at absent with starts
    exact stringAt_of_absent starts previous
  | cons b rest ih =>
    rw [strstr] at absent
    split_ifs at absent with starts
    rw [jsonFindFrom, ih absent, Option.or_none]
    exact stringAt_of_absent starts previous

/-- What lies before the first occurrence of the key makes no difference. -/
theorem jsonFindFrom_of_hit {key rest found : Bytes} (hit : strstr key rest = some found)
    (previous : Option UInt8) :
    ∃ skipped, rest = skipped ++ found ∧ jsonFindFrom key previous rest =
      jsonFindFrom key (skipped.getLast?.or previous) found := by
  induction rest generalizing previous with
  | nil =>
    rw [strstr] at hit
    split_ifs at hit
    obtain rfl := Option.some.inj hit
    exact ⟨[], rfl, rfl⟩
  | cons b rest ih =>
    rw [strstr] at hit
    split_ifs at hit with starts
    · obtain rfl := Option.some.inj hit
      exact ⟨[], rfl, rfl⟩
    · obtain ⟨skipped, rfl, same⟩ := ih hit (some b)
      refine ⟨b :: skipped, rfl, ?_⟩
      rw [jsonFindFrom, same, stringAt_of_absent starts, Option.none_or, List.getLast?_cons]
      cases skipped.getLast? <;> rfl

/-- The result of a search, as a text. -/
def spanOf (json : CString) (found : ℕ × ℕ) : Bytes := (json.suffix found.1).take found.2

theorem closing_iff {key : Bytes} (starts : key <+: json.suffix p) (inside : p ≤ json.length) :
    ∃ b, json.read (p + key.length) = some b ∧ (b = quote ↔ key ++ [quote] <+: json.suffix p) := by
  obtain ⟨rest, split⟩ := starts
  have behind : json.suffix (p + key.length) = rest := by
    rw [CString.suffix_add, ← split, List.drop_left]
  have fits := CString.le_length_of_prefix inside ⟨rest, split⟩
  rcases CString.read_cases fits with ⟨read, nothing⟩ | ⟨b, read, -, cons, -⟩
  · refine ⟨0, read, fun quoted => absurd quoted (by decide), fun quoted => ?_⟩
    rw [← split, List.prefix_append_right_inj, ← behind, nothing] at quoted
    simp at quoted
  · refine ⟨b, read, ?_⟩
    rw [← split, List.prefix_append_right_inj, ← behind, cons, List.cons_prefix_cons]
    simp [eq_comm]

/-- An occurrence of the key is the name of a string member, or the search goes on behind
its first byte. -/
def Judges (json : CString) (key : Bytes) (p : ℕ) : ℕ ⊕ Option (ℕ × ℕ) → Prop
  | .inl next => next = p + 1 ∧ stringAt key (byteBefore json p) (json.suffix p) = none
  | .inr found => ∃ x, found = some x ∧ x.1 + x.2 ≤ json.length ∧
    stringAt key (byteBefore json p) (json.suffix p) = some (spanOf json x)

theorem yields_occurrence {key : Bytes} (starts : key <+: json.suffix p) (inside : p ≤ json.length)
    (enough : json.length < turns) :
    Yields (occurrence json key turns p) (Judges json key p) := by
  rw [occurrence]
  split_ifs with first
  · -- nothing is before the first byte
    subst first
    exact yields_some.mpr ⟨rfl, if_neg fun quoted => by cases quoted.1⟩
  obtain ⟨before, read, shown⟩ := read_before first inside
  obtain ⟨closing, readClosing, quoted⟩ := closing_iff starts inside
  rw [read, readClosing]
  simp only [Option.bind_eq_bind, Option.bind_some]
  split_ifs with opens closes
  · refine yields_some.mpr ⟨rfl, if_neg fun both => ?_⟩
    exact opens (Option.some.inj (shown.symm.trans both.1))
  · exact yields_some.mpr ⟨rfl, if_neg fun both => closes (quoted.mpr both.2)⟩
  have name : byteBefore json p = some quote ∧ key ++ [quote] <+: json.suffix p := by
    rw [shown, not_not.mp opens]
    exact ⟨rfl, quoted.mp (not_not.mp closes)⟩
  have within : p + key.length + 1 ≤ json.length := by
    have fits := CString.le_length_of_prefix inside name.2
    rwa [List.length_append] at fits
  refine (yields_separator within enough).bind fun after separated => ?_
  obtain ⟨reaches, skipped⟩ := separated
  rw [Nat.add_assoc, CString.suffix_add] at skipped
  rcases CString.read_cases reaches with ⟨read, nothing⟩ | ⟨b, read, -, cons, more⟩
  · rw [read]
    refine yields_some.mpr ⟨rfl, stringAt_of_other name fun start opens => ?_⟩
    rw [← skipped, nothing] at opens
    cases opens
  · rw [read]
    simp only [Option.bind_some]
    split_ifs with opening
    · refine yields_some.mpr ⟨rfl, stringAt_of_other name fun start opens => ?_⟩
      rw [← skipped, cons] at opens
      exact opening (List.cons.inj opens).1
    · obtain rfl := not_not.mp opening
      refine (yields_value more enough).bind fun stop reached => yields_some.mpr ?_
      subst reached
      have starts' := stringSpan_prefix (json.suffix (after + 1))
      have fits := CString.le_length_of_prefix more starts'
      refine ⟨_, rfl, ?_⟩
      rw [stringAt_of_name name (skipped.symm.trans cons), spanOf, Nat.add_sub_cancel_left,
        ← List.prefix_iff_eq_take.mp starts']
      exact ⟨fits, rfl⟩

/-- The search ends inside the text, with what the reader finds. -/
theorem yields_jsonFindStr {key : Bytes} (nonempty : key ≠ []) (enough : json.length < turns) :
    Yields (jsonFindStr json key turns) fun found =>
      (∀ x ∈ found, x.1 + x.2 ≤ json.length) ∧
        found.map (spanOf json) = Plugin.jsonFindStr json.bytes key := by
  refine yields_loop
    (fun p => p ≤ json.length ∧ jsonFindFrom key (byteBefore json p) (json.suffix p) =
      Plugin.jsonFindStr json.bytes key)
    (json.length - ·) ?_ ⟨Nat.zero_le _, rfl⟩ (by omega)
  rintro p ⟨inside, same⟩
  rw [keyBody]
  rcases CString.strstr_cases inside key with ⟨search, absent⟩ |
    ⟨q, search, hit, starts, le, within⟩
  · rw [search]
    refine yields_some.mpr ⟨by simp, ?_⟩
    rw [← same, jsonFindFrom_of_absent absent, Option.map_none]
  rw [search]
  -- the search from the occurrence on finds what the search from here on does
  have moved : jsonFindFrom key (byteBefore json q) (json.suffix q) =
      Plugin.jsonFindStr json.bytes key := by
    obtain ⟨skipped, split, passed⟩ := jsonFindFrom_of_hit hit (byteBefore json p)
    rw [byteBefore_of_split split le within, ← passed, same]
  obtain ⟨b, rest, cons⟩ := List.exists_cons_of_ne_nil fun nothing : json.suffix q = [] => by
    rw [nothing, List.prefix_nil] at starts
    exact nonempty starts
  rw [cons, jsonFindFrom, ← cons] at moved
  refine (yields_occurrence starts within enough).mono fun outcome judged => ?_
  cases outcome with
  | inl next =>
    obtain ⟨rfl, passed⟩ := judged
    have here := congrArg List.length cons
    rw [CString.suffix_length, List.length_cons] at here
    have behind : json.suffix (q + 1) = rest := by
      rw [CString.suffix_add, cons]
      rfl
    rw [passed, Option.none_or] at moved
    rw [Turn, byteBefore_succ cons, behind]
    exact ⟨⟨by omega, moved⟩, by omega⟩
  | inr found =>
    obtain ⟨x, rfl, fits, value⟩ := judged
    rw [value, Option.some_or] at moved
    refine ⟨?_, moved⟩
    rintro _ ⟨⟩
    exact fits

/-- What the search has found, in the text. -/
theorem spanOf_prefix {x : ℕ × ℕ} (fits : x.1 + x.2 ≤ json.length) :
    spanOf json x <+: json.suffix x.1 ∧ (spanOf json x).length = x.2 := by
  refine ⟨List.take_prefix _ _, ?_⟩
  rw [spanOf, List.length_take, CString.suffix_length]
  omega

/-- The bytes are compared only if there are as many of them. -/
theorem yields_jsonEqStr {key : Bytes} (nonempty : key ≠ []) (value : Bytes)
    (enough : json.length < turns) :
    Yields (jsonEqStr json key value turns) (· = Plugin.jsonEqStr json.bytes key value) := by
  refine (yields_jsonFindStr nonempty enough).bind fun found post => ?_
  obtain ⟨fits, same⟩ := post
  rw [Plugin.jsonEqStr, ← same]
  cases found with
  | none => exact yields_some.mpr rfl
  | some x =>
    have inside := fits x rfl
    obtain ⟨starts, length⟩ := spanOf_prefix inside
    by_cases long : value.length = x.2
    · refine ⟨_, (if_pos long).trans ?_, rfl⟩
      rw [← length] at long
      rw [← length, CString.same_suffix (by omega) starts long, Option.map_some]
      simp
    · refine ⟨_, if_neg long, ?_⟩
      have differ : spanOf json x ≠ value := by
        rintro rfl
        exact long length
      simp [differ]

/-- The copy fills its buffer. -/
theorem yields_jsonDupStr (junk : ℕ → UInt8) {key : Bytes} (nonempty : key ≠ [])
    (enough : json.length < turns) :
    Yields (jsonDupStr junk json key turns) fun copy =>
      copy = (Plugin.jsonDupStr json.bytes key).map (· ++ [0]) := by
  refine (yields_jsonFindStr nonempty enough).bind fun found post => ?_
  obtain ⟨fits, value⟩ := post
  rw [Plugin.jsonDupStr, ← value]
  cases found with
  | none => exact yields_some.mpr rfl
  | some x =>
    have inside := fits x rfl
    obtain ⟨starts, length⟩ := spanOf_prefix inside
    have room : (spanOf json x).length ≤ (Cells.alloc junk (x.2 + 1)).length := by
      rw [Cells.alloc_length]
      omega
    have copied := CString.copy_suffix (p := x.1) (by omega) starts room
    -- one cell is left, for the NUL
    obtain ⟨last, left⟩ : ∃ last, (Cells.alloc junk (x.2 + 1)).drop x.2 = [last] := by
      rw [← List.length_eq_one_iff, List.length_drop, Cells.alloc_length, Nat.add_sub_cancel_left]
    have ended := Cells.store_append (spanOf json x) (List.cons_ne_nil last []) 0
    rw [length, left] at copied
    rw [length] at ended
    refine ⟨_, ?_, rfl⟩
    simp only [copied, ended, Option.bind_eq_bind, Option.bind_some, Option.map_some,
      List.tail_cons]

/-! ### What the sender reads in a request -/

/-- The text between `pattern` and the next quote, copied into a buffer. -/
def requestMember (json : CString) (pattern : Bytes) (skipped : ℕ) (buffer : Bytes) :
    Option Bytes := do
  match ← json.strstr 0 pattern with
  | none => some buffer
  | some found =>
    match ← json.strchr (found + skipped) quote with
    | none => some buffer
    | some e =>
      let l := e - (found + skipped)
      let l := if l ≥ buffer.length then buffer.length - 1 else l
      Cells.copy l (json.cells.drop (found + skipped)) buffer

def requestName (json : CString) : Option Bytes :=
  requestMember json (bytes "\"name\":\"") 8 (List.replicate 128 0)

def requestFingerprint (json : CString) : Option Bytes :=
  requestMember json (bytes "\"fingerprint\":\"") 15 (List.replicate 128 0)

/-- The text that is copied, cut to the size of the buffer. -/
def requestText (json : CString) (pattern : Bytes) (size : ℕ) : Bytes :=
  strncpy size (((strstr pattern json.bytes).bind fun found =>
    spanTo quote (found.drop pattern.length)).getD [])

theorem requestMember_eq {pattern buffer : Bytes} (room : buffer ≠ []) :
    requestMember json pattern pattern.length buffer =
      some (requestText json pattern buffer.length ++
        buffer.drop (requestText json pattern buffer.length).length) := by
  rw [requestMember, requestText]
  have nothing : strncpy buffer.length [] = [] := List.take_nil
  rcases json.strstr_zero_cases pattern with ⟨search, absent⟩ | ⟨q, search, hit, inside⟩
  · rw [search, absent, Option.bind_none, Option.getD_none, nothing]
    rfl
  rw [search, hit]
  simp only [Option.bind_eq_bind, Option.bind_some, CString.strchr_eq inside, CString.suffix_add]
  cases spanned : spanTo quote ((json.suffix q).drop pattern.length) with
  | none =>
    rw [Option.getD_none, nothing]
    rfl
  | some span =>
    have behind := spanTo_starts spanned
    rw [← CString.suffix_add] at behind
    have positive := List.length_pos_iff.mpr room
    -- the length that is copied is the one of the text, cut where the buffer ends
    have cut : (if span.length ≥ buffer.length then buffer.length - 1 else span.length) =
        (strncpy buffer.length span).length := by
      rw [strncpy, List.length_take]
      split_ifs <;> omega
    simp only [Option.map_some, Nat.add_sub_cancel_left, Option.getD_some, cut]
    refine CString.copy_suffix inside ((List.take_prefix _ _).trans behind) ?_
    exact Nat.le_of_lt (strncpy_length_lt positive span)

theorem requestName_eq (json : CString) :
    requestName json = some (Sender.textBuffer "name" json.bytes ++
      List.replicate (128 - (Sender.textBuffer "name" json.bytes).length) 0) := by
  rw [← List.drop_replicate]
  exact requestMember_eq (by simp)

theorem requestFingerprint_eq (json : CString) :
    requestFingerprint json = some (Sender.textBuffer "fingerprint" json.bytes ++
      List.replicate (128 - (Sender.textBuffer "fingerprint" json.bytes).length) 0) := by
  rw [← List.drop_replicate]
  exact requestMember_eq (by simp)

/-! ### What the receiver reads in an offer -/

/-- To the end of the text: `while (*end)`. -/
def endBody (json : CString) (p : ℕ) : Option (ℕ ⊕ ℕ) := do
  let b ← json.read p
  if b ≠ 0 then
    if b = backslash then
      let escaped ← json.read (p + 1)
      if escaped ≠ 0 then some (.inl (p + 2)) else some (.inl (p + 1))
    else if b = quote then some (.inr p)
    else some (.inl (p + 1))
  else some (.inr p)

/-- `for (size_t i = 0; i < len; ++i)`, with `j` bytes in the buffer. -/
def unescapeBody (json : CString) (p len : ℕ) :
    ℕ × ℕ × Bytes → Option ((ℕ × ℕ × Bytes) ⊕ (ℕ × Bytes))
  | (i, j, sdp) =>
    if i < len then do
      let b ← json.read (p + i)
      if b = backslash ∧ i + 1 < len then
        let e ← json.read (p + i + 1)
        let sdp ← Cells.store sdp j (unescapeByte e)
        some (.inl (i + 2, j + 1, sdp))
      else
        let sdp ← Cells.store sdp j b
        some (.inl (i + 1, j + 1, sdp))
    else some (.inr (j, sdp))

theorem endBody_eq (json : CString) : endBody json = valueBody json := by
  funext p
  rw [endBody, valueBody]
  cases json.read p with
  | none => rfl
  | some b =>
    simp only [Option.bind_eq_bind, Option.bind_some]
    by_cases nonzero : b = 0
    · simp [nonzero]
    · by_cases closing : b = quote
      · have plain : quote ≠ backslash := by decide
        subst closing
        simp [nonzero, plain]
      · simp [nonzero, closing]

/-- Over a byte that starts no escape. -/
theorem unescape_cons {b : UInt8} {rest : Bytes} (alone : b = backslash → rest = []) :
    unescape (b :: rest) = b :: unescape rest := by
  rw [unescape.eq_def]
  split
  · rename_i same
    obtain ⟨rfl, rfl⟩ := List.cons.inj same
    exact absurd (alone rfl) (by simp)
  · rename_i same
    obtain ⟨rfl, rfl⟩ := List.cons.inj same
    rfl
  · contradiction

theorem unescape_length_le (text : Bytes) : (unescape text).length ≤ text.length := by
  induction text using unescape.induct with
  | case1 e rest ih =>
    rw [unescape, List.length_cons, List.length_cons, List.length_cons]
    omega
  | case2 b rest notEscape ih =>
    rw [unescape_cons (eq_nil_of_not_escape notEscape), List.length_cons, List.length_cons]
    omega
  | case3 => exact Nat.le_refl _

/-- What is left of the first `len` bytes behind `p` when `i` of them are done. -/
def leftOver (json : CString) (p len i : ℕ) : Bytes := (json.suffix (p + i)).take (len - i)

theorem leftOver_cons {len i : ℕ} (inside : p + len ≤ json.length) (more : i < len) :
    ∃ b, json.read (p + i) = some b ∧
      leftOver json p len i = b :: leftOver json p len (i + 1) := by
  rcases CString.read_cases (s := json) (p := p + i) (by omega) with ⟨-, nothing⟩ |
    ⟨b, read, -, cons, -⟩
  · have short := congrArg List.length nothing
    rw [CString.suffix_length, List.length_nil] at short
    omega
  · refine ⟨b, read, ?_⟩
    obtain ⟨rest, same⟩ : ∃ rest, len - i = rest + 1 := ⟨len - i - 1, by omega⟩
    rw [leftOver, leftOver, cons, same, List.take_succ_cons, Nat.add_assoc]
    congr 2
    omega

/-- The loop is at most as far in the buffer as it is in the text. What it has written and
what it is going to write is the text with its escapes resolved. -/
structure Unescaping (json : CString) (p len : ℕ) (fresh : Bytes) (state : ℕ × ℕ × Bytes) :
    Prop where
  within : state.1 ≤ len
  behind : state.2.1 ≤ state.1
  size : state.2.2.length = fresh.length
  written : Cells.overwrite state.2.2 state.2.1 (unescape (leftOver json p len state.1)) =
    Cells.overwrite fresh 0 (unescape (leftOver json p len 0))
  ahead : state.2.1 + (unescape (leftOver json p len state.1)).length =
    (unescape (leftOver json p len 0)).length

theorem Unescaping.turn {len : ℕ} {fresh : Bytes} {state : ℕ × ℕ × Bytes}
    (inside : p + len ≤ json.length) (room : len < fresh.length)
    (inv : Unescaping json p len fresh state) :
    Yields (unescapeBody json p len state)
      (Turn (Unescaping json p len fresh) (len - ·.1) (fun result =>
        result.1 = (unescape (leftOver json p len 0)).length ∧
          result.2 = Cells.overwrite fresh 0 (unescape (leftOver json p len 0))) state) := by
  obtain ⟨i, j, sdp⟩ := state
  obtain ⟨within, behind, size, written, ahead⟩ := inv
  simp only at within behind size written ahead
  rw [unescapeBody]
  by_cases more : i < len
  · obtain ⟨b, read, cons⟩ := leftOver_cons inside more
    have cell : j < sdp.length := by omega
    rw [if_pos more, read]
    simp only [Option.bind_eq_bind, Option.bind_some]
    by_cases escape : b = backslash ∧ i + 1 < len
    · obtain ⟨e, readNext, consNext⟩ := leftOver_cons inside escape.2
      rw [escape.1] at cons
      rw [cons, consNext, unescape] at written ahead
      rw [if_pos escape, Nat.add_assoc, readNext, Option.bind_some, Cells.store, if_pos cell]
      refine yields_some.mpr ⟨⟨escape.2, by simp only; omega, ?_, ?_, ?_⟩, by simp only; omega⟩
      · exact List.length_set.trans size
      · exact (Cells.overwrite_set cell _ _).trans written
      · rw [List.length_cons] at ahead
        simp only [Nat.add_assoc, Nat.reduceAdd] at ahead ⊢
        omega
    · have alone : b = backslash → leftOver json p len (i + 1) = [] := by
        intro start
        have last : len - (i + 1) = 0 := by
          have := not_and.mp escape start
          omega
        rw [leftOver, last, List.take_zero]
      rw [cons, unescape_cons alone] at written ahead
      rw [if_neg escape, Cells.store, if_pos cell]
      refine yields_some.mpr ⟨⟨more, by simp only; omega, ?_, ?_, ?_⟩, by simp only; omega⟩
      · exact List.length_set.trans size
      · exact (Cells.overwrite_set cell _ _).trans written
      · rw [List.length_cons] at ahead
        simp only at ahead ⊢
        omega
  · have done : leftOver json p len i = [] := by
      rw [leftOver, Nat.sub_eq_zero_of_le (Nat.not_lt.mp more), List.take_zero]
    rw [done] at written ahead
    rw [if_neg more]
    refine yields_some.mpr ⟨ahead, ?_⟩
    rw [← written]
    exact (Cells.overwrite_nil sdp j).symm

theorem yields_unescape {len : ℕ} {fresh : Bytes} (inside : p + len ≤ json.length)
    (room : len < fresh.length) (enough : json.length < turns) :
    Yields (loop (unescapeBody json p len) turns (0, 0, fresh)) fun result =>
      result.1 = (unescape (leftOver json p len 0)).length ∧
        result.2 = Cells.overwrite fresh 0 (unescape (leftOver json p len 0)) :=
  yields_loop (Unescaping json p len fresh) (len - ·.1) (fun _ inv => inv.turn inside room)
    ⟨Nat.zero_le _, Nat.le_refl _, rfl, rfl, Nat.zero_add _⟩ (by simp only; omega)

def offerText (junk : ℕ → UInt8) (json : CString) (turns : ℕ) : Option (Option Bytes) := do
  match ← json.strstr 0 (bytes "\"sdp\":\"") with
  | none => some none
  | some p =>
    let p := p + 7
    let stop ← loop (endBody json) turns p
    let len := stop - p
    let (j, sdp) ← loop (unescapeBody json p len) turns (0, 0, Cells.alloc junk (len + 1))
    let sdp ← Cells.store sdp j 0
    some (some sdp)

/-- The buffer holds a text with a NUL behind it. -/
def Holds (buffer text : Bytes) : Prop := ∃ rest, buffer = text ++ 0 :: rest

/-- A NUL behind what has been written. -/
theorem store_end {buffer text : Bytes} (room : text.length < buffer.length) :
    ∃ ended, Cells.store (Cells.overwrite buffer 0 text) text.length 0 = some ended ∧
      ended.length = buffer.length ∧ Holds ended text := by
  have left : buffer.drop text.length ≠ [] := by
    rw [← List.length_pos_iff, List.length_drop]
    omega
  refine ⟨text ++ 0 :: (buffer.drop text.length).tail, ?_, ?_, _, rfl⟩
  · rw [Cells.overwrite_zero, Cells.store_append text left]
  · rw [List.length_append, List.length_cons, List.length_tail, List.length_drop]
    omega

/-- The buffer for an offer is as long as what is read, and a NUL. -/
theorem yields_offerText (junk : ℕ → UInt8) (enough : json.length < turns) :
    Yields (offerText junk json turns)
      (Option.Rel Holds · (ReceiveSession.offerText json.bytes)) := by
  have known : (strstr (memberPattern (bytes "sdp")) json.bytes).map (fun found =>
      unescape (stringSpan (found.drop (memberPattern (bytes "sdp")).length))) =
      ReceiveSession.offerText json.bytes := rfl
  rw [offerText, ← known]
  have pattern : bytes "\"sdp\":\"" = memberPattern (bytes "sdp") := by decide
  rw [pattern]
  rcases json.strstr_zero_cases (memberPattern (bytes "sdp")) with
    ⟨search, absent⟩ | ⟨q, search, hit, inside⟩
  · rw [search, absent]
    exact yields_some.mpr .none
  have inside : q + 7 ≤ json.length := inside
  have behind : (json.suffix q).drop (memberPattern (bytes "sdp")).length = json.suffix (q + 7) :=
    (CString.suffix_add q 7).symm
  rw [search, hit, Option.map_some, behind]
  simp only [Option.bind_eq_bind, Option.bind_some, endBody_eq]
  refine (yields_value inside enough).bind fun stop reached => ?_
  subst reached
  have span := stringSpan_prefix (json.suffix (q + 7))
  have fits := CString.le_length_of_prefix inside span
  have whole : leftOver json (q + 7) (stringSpan (json.suffix (q + 7))).length 0 =
      stringSpan (json.suffix (q + 7)) := (List.prefix_iff_eq_take.mp span).symm
  rw [Nat.add_sub_cancel_left]
  refine (yields_unescape fits (by simp) enough).bind fun result post => ?_
  obtain ⟨j, sdp⟩ := result
  rw [whole] at post
  obtain ⟨rfl, rfl⟩ := post
  have shorter := unescape_length_le (stringSpan (json.suffix (q + 7)))
  have room : (unescape (stringSpan (json.suffix (q + 7)))).length <
      (Cells.alloc junk ((stringSpan (json.suffix (q + 7))).length + 1)).length := by
    rw [Cells.alloc_length]
    omega
  obtain ⟨ended, stored, -, holds⟩ := store_end room
  rw [stored]
  exact yields_some.mpr (.some holds)

/-! ### What the peer connection reads in descriptions -/

/-- A text as far as the line goes. -/
def line (text : Bytes) : Bytes := text.takeWhile fun b => b ≠ 13 ∧ b ≠ 10

@[simp] theorem line_nil : line [] = [] := rfl

theorem line_cons (b : UInt8) (rest : Bytes) :
    line (b :: rest) = if b ≠ 13 ∧ b ≠ 10 then b :: line rest else [] := by
  rw [line, List.takeWhile_cons]
  simp [line]

theorem line_starts (text : Bytes) : line text <+: text := List.takeWhile_prefix _

/-- `while (fp[len] && …)`, for a buffer of `size` bytes. -/
def fingerprintBody (sdp : CString) (fp size : ℕ) (len : ℕ) : Option (ℕ ⊕ ℕ) := do
  let b ← sdp.read (fp + len)
  if b ≠ 0 ∧ b ≠ 13 ∧ b ≠ 10 ∧ len < size - 1 then some (.inl (len + 1)) else some (.inr len)

/-- As far as the line goes, or the buffer. -/
theorem yields_fingerprint {sdp : CString} {fp size : ℕ} (inside : fp ≤ sdp.length)
    (enough : sdp.length < turns) :
    Yields (loop (fingerprintBody sdp fp size) turns 0)
      (· = (strncpy size (line (sdp.suffix fp))).length) := by
  rw [strncpy, List.length_take]
  refine yields_loop
    (fun len => fp + len ≤ sdp.length ∧ len ≤ size - 1 ∧
      len + (line (sdp.suffix (fp + len))).length = (line (sdp.suffix fp)).length)
    (fun len => sdp.length - (fp + len)) ?_ ⟨inside, Nat.zero_le _, Nat.zero_add _⟩ (by omega)
  rintro len ⟨within, short, ahead⟩
  rw [fingerprintBody]
  rcases CString.read_cases within with ⟨read, nothing⟩ | ⟨b, read, nonzero, cons, more⟩
  · rw [nothing, line_nil, List.length_nil] at ahead
    refine ⟨.inr len, by rw [read]; rfl, ?_⟩
    rw [Turn]
    omega
  rw [cons, line_cons] at ahead
  rw [read]
  simp only [Option.bind_eq_bind, Option.bind_some]
  by_cases goesOn : b ≠ 0 ∧ b ≠ 13 ∧ b ≠ 10 ∧ len < size - 1
  · rw [if_pos ⟨goesOn.2.1, goesOn.2.2.1⟩, List.length_cons] at ahead
    rw [if_pos goesOn, yields_some, Turn, ← Nat.add_assoc]
    omega
  · rw [if_neg goesOn, yields_some, Turn]
    by_cases ends : b ≠ 13 ∧ b ≠ 10
    · have full : ¬ len < size - 1 := fun room => goesOn ⟨nonzero, ends.1, ends.2, room⟩
      rw [if_pos ends, List.length_cons] at ahead
      omega
    · rw [if_neg ends, List.length_nil] at ahead
      omega

/-- What `on_local_description` makes of `local_fingerprint`. -/
def localFingerprint (sdp : CString) (buffer : Bytes) (turns : ℕ) : Option Bytes := do
  match ← sdp.strstr 0 (bytes "a=fingerprint:") with
  | none => some buffer
  | some fp =>
    let fp := fp + (bytes "a=fingerprint:").length
    let len ← loop (fingerprintBody sdp fp buffer.length) turns 0
    let buffer ← Cells.copy len (sdp.cells.drop fp) buffer
    Cells.store buffer len 0

/-- The fingerprint is copied as far as the buffer has room for it. -/
theorem yields_localFingerprint {sdp : CString} {buffer : Bytes} (room : buffer ≠ [])
    (enough : sdp.length < turns) :
    Yields (localFingerprint sdp buffer turns) fun written =>
      written.length = buffer.length ∧
        match Sender.fingerprintOf sdp.bytes with
        | none => written = buffer
        | some text => Holds written (strncpy buffer.length text) := by
  have known : (strstr (bytes "a=fingerprint:") sdp.bytes).map (fun found =>
      line (found.drop (bytes "a=fingerprint:").length)) = Sender.fingerprintOf sdp.bytes := rfl
  rw [localFingerprint, ← known]
  generalize bytes "a=fingerprint:" = pattern
  rcases sdp.strstr_zero_cases pattern with ⟨search, absent⟩ | ⟨q, search, hit, inside⟩
  · rw [search, absent]
    exact yields_some.mpr ⟨rfl, rfl⟩
  rw [search, hit, Option.map_some, ← CString.suffix_add]
  simp only [Option.bind_eq_bind, Option.bind_some]
  refine (yields_fingerprint inside enough).bind fun len reached => ?_
  subst reached
  have positive := List.length_pos_iff.mpr room
  have fits := strncpy_length_lt positive (line (sdp.suffix (q + pattern.length)))
  have part : strncpy buffer.length (line (sdp.suffix (q + pattern.length))) <+:
      sdp.suffix (q + pattern.length) := (List.take_prefix _ _).trans (line_starts _)
  obtain ⟨ended, stored, length, holds⟩ := store_end fits
  rw [CString.copy_suffix inside part (Nat.le_of_lt fits), Option.bind_some,
    ← Cells.overwrite_zero, stored]
  exact yields_some.mpr ⟨length, holds⟩

/-- `while (*p && … && i < out_size - 1)` -/
def midBody (desc : CString) (outSize : ℕ) :
    ℕ × ℕ × Bytes → Option ((ℕ × ℕ × Bytes) ⊕ (ℕ × Bytes))
  | (p, i, out) => do
    let b ← desc.read p
    if b ≠ 0 ∧ b ≠ 13 ∧ b ≠ 10 ∧ i < outSize - 1 then
      let out ← Cells.store out i b
      some (.inl (p + 1, i + 1, out))
    else some (.inr (i, out))

/-- `parse_mid_from_desc`, for a buffer whose size is passed with it. -/
def parseMidFromDesc (desc : Option CString) (out : Bytes) (turns : ℕ) : Option Bytes := do
  let out ← Cells.store out 0 0
  match desc with
  | none => some out
  | some desc =>
    match ← desc.strstr 0 (bytes "a=mid:") with
    | none => some out
    | some p =>
      let (i, out) ← loop (midBody desc out.length) turns (p + 6, 0, out)
      Cells.store out i 0

/-- The text of the first `mid` attribute. -/
def midOf (desc : Bytes) : Option Bytes :=
  (strstr (bytes "a=mid:") desc).map fun found => line (found.drop (bytes "a=mid:").length)

/-- What is written and what is going to be written is the line, as far as there is room. -/
structure CopyingMid (desc : CString) (p : ℕ) (out : Bytes) (state : ℕ × ℕ × Bytes) : Prop where
  within : state.1 ≤ desc.length
  short : state.2.1 ≤ out.length - 1
  size : state.2.2.length = out.length
  written : Cells.overwrite state.2.2 state.2.1
      ((line (desc.suffix state.1)).take (out.length - 1 - state.2.1)) =
    Cells.overwrite out 0 (strncpy out.length (line (desc.suffix p)))
  ahead : state.2.1 + ((line (desc.suffix state.1)).take (out.length - 1 - state.2.1)).length =
    (strncpy out.length (line (desc.suffix p))).length

theorem CopyingMid.turn {desc : CString} {out : Bytes} {state : ℕ × ℕ × Bytes} (room : out ≠ [])
    (inv : CopyingMid desc p out state) :
    Yields (midBody desc out.length state)
      (Turn (CopyingMid desc p out) (desc.length - ·.1) (fun result =>
        result.1 = (strncpy out.length (line (desc.suffix p))).length ∧
          result.2 = Cells.overwrite out 0 (strncpy out.length (line (desc.suffix p)))) state) := by
  have positive := List.length_pos_iff.mpr room
  obtain ⟨cursor, i, copy⟩ := state
  obtain ⟨within, short, size, written, ahead⟩ := inv
  simp only at within short size written ahead
  rw [midBody]
  -- where the loop ends nothing is left to write
  have ends (nothing : (line (desc.suffix cursor)).take (out.length - 1 - i) = []) :
      i = (strncpy out.length (line (desc.suffix p))).length ∧
        copy = Cells.overwrite out 0 (strncpy out.length (line (desc.suffix p))) := by
    rw [nothing] at written ahead
    rw [Cells.overwrite_nil] at written
    exact ⟨ahead, written⟩
  rcases CString.read_cases within with ⟨read, nothing⟩ | ⟨b, read, nonzero, cons, more⟩
  · rw [nothing, line_nil, List.take_nil] at ends
    exact ⟨.inr (i, copy), by rw [read]; rfl, ends rfl⟩
  rw [read]
  simp only [Option.bind_eq_bind, Option.bind_some]
  by_cases goesOn : b ≠ 0 ∧ b ≠ 13 ∧ b ≠ 10 ∧ i < out.length - 1
  · have cell : i < copy.length := by omega
    obtain ⟨left, same⟩ : ∃ left, out.length - 1 - i = left + 1 :=
      ⟨out.length - 1 - i - 1, by omega⟩
    have less : out.length - 1 - (i + 1) = left := by omega
    rw [cons, line_cons, if_pos ⟨goesOn.2.1, goesOn.2.2.1⟩, same, List.take_succ_cons]
      at written ahead
    rw [if_pos goesOn, Cells.store, if_pos cell]
    refine yields_some.mpr ⟨⟨more, by simp only; omega, ?_, ?_, ?_⟩, by simp only; omega⟩
    · exact List.length_set.trans size
    · simp only [less]
      exact (Cells.overwrite_set cell _ _).trans written
    · simp only [less]
      rw [List.length_cons] at ahead
      omega
  · rw [if_neg goesOn]
    refine yields_some.mpr (ends ?_)
    by_cases lineEnds : b ≠ 13 ∧ b ≠ 10
    · have full : out.length - 1 - i = 0 := by
        have stops : ¬ i < out.length - 1 :=
          fun more => goesOn ⟨nonzero, lineEnds.1, lineEnds.2, more⟩
        omega
      rw [full, List.take_zero]
    · rw [cons, line_cons, if_neg lineEnds, List.take_nil]

/-- The mid is copied as far as the buffer has room for it. -/
theorem yields_parseMidFromDesc {desc : Option CString} {out : Bytes} (room : out ≠ [])
    (enough : ∀ text ∈ desc, text.length < turns) :
    Yields (parseMidFromDesc desc out turns) fun written =>
      written.length = out.length ∧
        Holds written (strncpy out.length ((desc.bind fun text => midOf text.bytes).getD [])) := by
  obtain ⟨first, rest, rfl⟩ := List.exists_cons_of_ne_nil room
  have nothing : strncpy (first :: rest).length [] = [] := List.take_nil
  have cleared : Cells.store (first :: rest) 0 0 = some (0 :: rest) := by
    simp [Cells.store]
  rw [parseMidFromDesc, cleared]
  cases desc with
  | none =>
    refine yields_some.mpr ⟨rfl, ?_⟩
    rw [Option.bind_none, Option.getD_none, nothing]
    exact ⟨rest, rfl⟩
  | some desc =>
    have known : (strstr (bytes "a=mid:") desc.bytes).map (fun found =>
        line (found.drop (bytes "a=mid:").length)) = midOf desc.bytes := rfl
    simp only [Option.bind_eq_bind, Option.bind_some, ← known]
    rcases desc.strstr_zero_cases (bytes "a=mid:") with
      ⟨search, absent⟩ | ⟨q, search, hit, inside⟩
    · rw [search, absent, Option.map_none, Option.getD_none, nothing]
      exact yields_some.mpr ⟨rfl, rest, rfl⟩
    have inside : q + 6 ≤ desc.length := inside
    have behind : (desc.suffix q).drop (bytes "a=mid:").length = desc.suffix (q + 6) :=
      (CString.suffix_add q 6).symm
    rw [search, hit, Option.map_some, behind]
    simp only [Option.bind_some]
    have begun : CopyingMid desc (q + 6) (0 :: rest) (q + 6, 0, 0 :: rest) :=
      ⟨inside, Nat.zero_le _, rfl, rfl, Nat.zero_add _⟩
    have left : desc.length - (q + 6) < turns := by
      have := enough desc rfl
      omega
    refine (yields_loop (CopyingMid desc (q + 6) (0 :: rest)) (desc.length - ·.1)
      (fun _ inv => inv.turn (List.cons_ne_nil 0 rest)) begun left).bind fun result post => ?_
    obtain ⟨i, copy⟩ := result
    obtain ⟨rfl, rfl⟩ := post
    have room : (strncpy (rest.length + 1) (line (desc.suffix (q + 6)))).length <
        (0 :: rest).length := strncpy_length_lt (Nat.succ_pos rest.length) _
    obtain ⟨ended, stored, length, holds⟩ := store_end room
    exact ⟨ended, stored, length, holds⟩

/-! ### All of them -/

/-- Whatever the text is, no scanner turns more often than the text has bytes and a NUL,
reads behind the NUL or writes behind its buffer. Names that are looked up have letters,
and a buffer for a mid has room for the NUL. -/
theorem scanners_stay_inside (text : CString) (junk : ℕ → UInt8) {turns : ℕ}
    (enough : text.length < turns) :
    (∀ key ≠ [], Yields (jsonFindStr text key turns) fun found =>
      ∀ x ∈ found, x.1 + x.2 ≤ text.length) ∧
    (∀ key ≠ [], Yields (jsonDupStr junk text key turns) fun copy =>
      copy = (Plugin.jsonDupStr text.bytes key).map (· ++ [0])) ∧
    Yields (requestName text) (·.length = 128) ∧
    Yields (requestFingerprint text) (·.length = 128) ∧
    Yields (offerText junk text turns) (Option.Rel Holds · (ReceiveSession.offerText text.bytes)) ∧
    (∀ buffer : Bytes, buffer.length = 128 →
      Yields (localFingerprint text buffer turns) (·.length = 128)) ∧
    ∀ out ≠ [], Yields (parseMidFromDesc (some text) out turns) (·.length = out.length) := by
  have filled {name : String} : (Sender.textBuffer name text.bytes ++
      List.replicate (128 - (Sender.textBuffer name text.bytes).length) 0).length = 128 := by
    have short : (Sender.textBuffer name text.bytes).length < 128 :=
      strncpy_length_lt (by decide) _
    rw [List.length_append, List.length_replicate]
    omega
  refine ⟨fun key nonempty => ?_, fun key nonempty => ?_, ?_, ?_, ?_, fun buffer size => ?_,
    fun out room => ?_⟩
  · exact (yields_jsonFindStr nonempty enough).mono fun found post => post.1
  · exact yields_jsonDupStr junk nonempty enough
  · exact ⟨_, requestName_eq text, filled⟩
  · exact ⟨_, requestFingerprint_eq text, filled⟩
  · exact yields_offerText junk enough
  · have room : buffer ≠ [] := by
      rintro rfl
      cases size
    exact (yields_localFingerprint room enough).mono fun written post => post.1.trans size
  · refine (yields_parseMidFromDesc room ?_).mono fun written post => post.1
    rintro _ ⟨⟩
    exact enough

/-- An offer whose text has no closing quote, and a backslash at its end. -/
def brokenOffer : CString := ⟨bytes "\"type\":\"sdp\",\"sdp\":\"v=0\\n\\", by decide⟩

theorem brokenOffer_stays_inside :
    Yields (jsonFindStr brokenOffer (bytes "sdp") 40)
        (fun found => ∀ x ∈ found, x.1 + x.2 ≤ brokenOffer.length) ∧
      Yields (offerText (fun _ => 7) brokenOffer 40)
        (Option.Rel Holds · (ReceiveSession.offerText brokenOffer.bytes)) ∧
      offerText (fun _ => 7) brokenOffer 40 =
        some (some ([118, 61, 48, 10, backslash, 0, 7])) := by
  have enough : brokenOffer.length < 40 := by decide
  have inside := scanners_stay_inside brokenOffer (fun _ => 7) enough
  exact ⟨inside.1 _ (by decide), inside.2.2.2.2.1, by decide⟩

end Tether.Plugin.Scanners
