import Mathlib.Data.List.TakeWhile
import Tether.Text.Bytes

/-!
# Paths and queries of URLs

Behind the scheme and its two slashes a URL names an authority. Its path goes from there to the
query or the fragment, and its query stands between the first question mark and the fragment. As
a form the query is a list of names with values, separated by ampersands, in which a plus stands
for a space and a percent sign for a byte given by two digits.

Apart from tabs and line ends a URL is taken as it is written. What a parser would escape in its
query is what reading the form would resolve again. Steps to a parent in a path are not taken,
and backslashes are no slashes.

## Main definitions

* `urlPath`, `urlQuery` — the path and the query of a URL
* `Url` — a URL in its parts, which every parser reads alike
* `formMembers` — the names and values of a form
* `searchParam` — the value of a name in the query

## Main results

* `Url.urlPath_append` — the path of a URL in its parts, whatever is added to its query
* `urlQuery_append`, `formMembers_append` — what a text behind a URL adds to it
* `formMembers_plain` — one name with its value
* `searchParam_add` — a parameter that is added to a URL is found unless the URL already has
  one of its name, or a fragment
-/

namespace Js

open Text

/-! ### The parts of a URL -/

/-- A URL without the tabs and line ends in it. -/
def urlText (url : Bytes) : Bytes := url.filter fun b => b ≠ 9 ∧ b ≠ 10 ∧ b ≠ 13

/-- What stands behind the scheme and two slashes, from the authority's end up to the query or
the fragment; a slash if there is nothing. -/
def urlPath (url : Bytes) : Bytes :=
  let rest := ((urlText url).dropWhile (· != 58)).drop 3
  let path := rest.dropWhile fun b => b != 47 && b != 63 && b != 35
  match path.takeWhile fun b => b != 63 && b != 35 with
  | [] => [47]
  | path => path

/-- The text between the first question mark and the fragment. -/
def urlQuery (url : Bytes) : Option Bytes :=
  match ((urlText url).takeWhile (· != 35)).dropWhile (· != 63) with
  | [] => none
  | _ :: query => some query

/-- The value of a hexadecimal digit. -/
def hexValue (b : UInt8) : Option UInt8 :=
  if 48 ≤ b ∧ b ≤ 57 then some (b - 48)
  else if 65 ≤ b ∧ b ≤ 70 then some (b - 55)
  else if 97 ≤ b ∧ b ≤ 102 then some (b - 87)
  else none

/-- Two digits behind a percent sign stand for a byte. -/
def percentDecode : Bytes → Bytes
  | 37 :: high :: low :: more =>
    match hexValue high, hexValue low with
    | some h, some l => (16 * h + l) :: percentDecode more
    | _, _ => 37 :: percentDecode (high :: low :: more)
  | b :: rest => b :: percentDecode rest
  | [] => []

/-- A name or a value of a form. -/
def formDecode (text : Bytes) : Bytes := percentDecode (text.map fun b => if b = 43 then 32 else b)

/-- A name, and the value behind the first equals sign. -/
def formMember (sequence : Bytes) : Bytes × Bytes :=
  (formDecode (sequence.takeWhile (· != 61)), formDecode (sequence.dropWhile (· != 61)).tail)

/-- The names and values of a form. -/
def formMembers (form : Bytes) : List (Bytes × Bytes) :=
  ((form.splitOn 38).filter (· ≠ [])).map formMember

/-- `searchParams.get(name)` -/
def searchParam (name url : Bytes) : Option Bytes :=
  (urlQuery url).bind fun form => (formMembers form).lookup name

/-! ### Texts without marks -/

section Marks

variable {text : Bytes}

theorem takeWhile_of_not_mem {b : UInt8} (absent : b ∉ text) : text.takeWhile (· != b) = text := by
  refine List.takeWhile_eq_self_iff.mpr fun c member => bne_iff_ne.mpr ?_
  rintro rfl
  exact absent member

theorem dropWhile_of_not_mem {b : UInt8} (absent : b ∉ text) : text.dropWhile (· != b) = [] := by
  refine List.dropWhile_eq_nil_iff.mpr fun c member => bne_iff_ne.mpr ?_
  rintro rfl
  exact absent member

theorem urlText_eq (clean : ∀ b ∈ text, b ≠ 9 ∧ b ≠ 10 ∧ b ≠ 13) : urlText text = text :=
  List.filter_eq_self.mpr fun b member => decide_eq_true (clean b member)

end Marks

/-! ### URLs in parts -/

/-- A character that URLs are written with and that no parser escapes. -/
def IsUrlByte (b : UInt8) : Prop :=
  48 ≤ b ∧ b ≤ 57 ∨ 65 ≤ b ∧ b ≤ 90 ∨ 97 ≤ b ∧ b ≤ 122 ∨ b ∈ bytes "-._~:/?#[]@!$&()*+,;=%"

instance : DecidablePred IsUrlByte := fun _ => inferInstanceAs (Decidable (_ ∨ _ ∨ _ ∨ _))

theorem IsUrlByte.clean {b : UInt8} (known : IsUrlByte b) : b ≠ 9 ∧ b ≠ 10 ∧ b ≠ 13 := by
  refine ⟨?_, ?_, ?_⟩ <;>
  · rintro rfl
    revert known
    decide

/-- A URL in its parts. Its path has no dot segments and no percent signs, which might stand
for some. -/
structure Url where
  scheme : Bytes
  authority : Bytes
  path : Bytes
  /-- The query and the fragment, with the marks in front of them. -/
  tail : Bytes
  letters : ∀ b ∈ scheme, 97 ≤ b ∧ b ≤ 122
  characters : ∀ b ∈ authority ++ (path ++ tail), IsUrlByte b
  named : authority ≠ []
  host : ∀ b ∈ authority, b ≠ 47 ∧ b ≠ 63 ∧ b ≠ 35
  begins : path.head?.all (· = 47)
  ends : ∀ b ∈ path, b ≠ 63 ∧ b ≠ 35
  direct : ∀ segment ∈ path.splitOn 47, segment ≠ bytes "." ∧ segment ≠ bytes ".." ∧ 37 ∉ segment
  marks : tail.head?.all fun b => b = 63 ∨ b = 35

namespace Url

variable (url : Url)

/-- The URL as it is written. -/
def text : Bytes := url.scheme ++ 58 :: 47 :: 47 :: (url.authority ++ (url.path ++ url.tail))

/-- The path that is asked for. -/
def pathname : Bytes := if url.path = [] then [47] else url.path

theorem noColon : 58 ∉ url.scheme := by
  intro member
  exact absurd (url.letters 58 member) (by decide)

theorem clean : ∀ b ∈ url.text, b ≠ 9 ∧ b ≠ 10 ∧ b ≠ 13 := by
  have letter (b : UInt8) (member : b ∈ url.scheme) : b ≠ 9 ∧ b ≠ 10 ∧ b ≠ 13 := by
    refine ⟨?_, ?_, ?_⟩ <;>
    · rintro rfl
      exact absurd (url.letters _ member) (by decide)
  rw [text, List.forall_mem_append, List.forall_mem_cons, List.forall_mem_cons,
    List.forall_mem_cons]
  exact ⟨letter, by decide, by decide, by decide, fun b member => (url.characters b member).clean⟩

/-- A question mark stands in the tail only. -/
theorem tail_ne_nil (asked : 63 ∈ url.text) : url.tail ≠ [] := by
  rw [text, List.mem_append, List.mem_cons, List.mem_cons, List.mem_cons, List.mem_append,
    List.mem_append] at asked
  rcases asked with member | same | same | same | member | member | member
  · exact absurd (url.letters 63 member) (by decide)
  · cases same
  · cases same
  · cases same
  · exact absurd rfl (url.host 63 member).2.1
  · exact absurd rfl (url.ends 63 member).1
  · exact List.ne_nil_of_mem member

/-- The path of a URL is what is written, whatever is added to its query or its fragment. -/
theorem urlPath_append {more : Bytes} (cleanMore : ∀ b ∈ more, b ≠ 9 ∧ b ≠ 10 ∧ b ≠ 13)
    (marks : (url.tail ++ more).head?.all fun b => b = 63 ∨ b = 35) :
    urlPath (url.text ++ more) = url.pathname := by
  have shape : url.text ++ more = url.scheme ++ 58 :: 47 :: 47 ::
      (url.authority ++ (url.path ++ (url.tail ++ more))) := by
    simp [text]
  have clean : ∀ b ∈ url.text ++ more, b ≠ 9 ∧ b ≠ 10 ∧ b ≠ 13 := by
    rw [List.forall_mem_append]
    exact ⟨url.clean, cleanMore⟩
  have behind : (url.text ++ more).dropWhile (· != 58) =
      58 :: 47 :: 47 :: (url.authority ++ (url.path ++ (url.tail ++ more))) := by
    rw [shape, List.dropWhile_append, dropWhile_of_not_mem url.noColon]
    rfl
  have named : (url.authority ++ (url.path ++ (url.tail ++ more))).dropWhile
      (fun b => b != 47 && b != 63 && b != 35) = url.path ++ (url.tail ++ more) := by
    rw [List.dropWhile_append_of_pos fun b member => by simpa [and_assoc] using url.host b member]
    cases path : url.path with
    | cons b rest =>
      obtain rfl : b = 47 := by simpa [path] using url.begins
      rfl
    | nil =>
      cases tail : url.tail ++ more with
      | nil => rfl
      | cons b rest =>
        obtain rfl | rfl : b = 63 ∨ b = 35 := by simpa [tail] using marks
        · rfl
        · rfl
  have written : (url.path ++ (url.tail ++ more)).takeWhile (fun b => b != 63 && b != 35) =
      url.path := by
    rw [List.takeWhile_append_of_pos fun b member => by simpa using url.ends b member]
    cases tail : url.tail ++ more with
    | nil => exact List.append_nil _
    | cons b rest =>
      obtain rfl | rfl : b = 63 ∨ b = 35 := by simpa [tail] using marks
      · exact List.append_nil _
      · exact List.append_nil _
  rw [urlPath, urlText_eq clean, behind, pathname]
  simp only [List.drop_succ_cons, List.drop_zero, named, written]
  cases url.path with
  | nil => rfl
  | cons b rest => rfl

end Url

/-! ### What is added to a URL -/

section Append

variable {url text : Bytes}

theorem urlText_append (clean : ∀ b ∈ text, b ≠ 9 ∧ b ≠ 10 ∧ b ≠ 13) :
    urlText (url ++ text) = urlText url ++ text := by
  have whole : urlText text = text := urlText_eq clean
  rw [urlText] at whole ⊢
  rw [List.filter_append, whole]
  rfl

theorem mem_urlText {b : UInt8} (mark : b ≠ 9 ∧ b ≠ 10 ∧ b ≠ 13) : b ∈ urlText url ↔ b ∈ url := by
  rw [urlText, List.mem_filter]
  exact and_iff_left (decide_eq_true mark)

/-- Behind a fragment nothing is added to the query. -/
theorem urlQuery_of_fragment (fragment : 35 ∈ url)
    (clean : ∀ b ∈ text, b ≠ 9 ∧ b ≠ 10 ∧ b ≠ 13) : urlQuery (url ++ text) = urlQuery url := by
  have mark : 35 ∈ urlText url := (mem_urlText (by decide)).mpr fragment
  have shorter : (urlText url ++ text).takeWhile (· != 35) = (urlText url).takeWhile (· != 35) := by
    rw [List.takeWhile_append]
    refine if_neg fun whole => ?_
    have all := (List.takeWhile_prefix _).eq_of_length whole
    have without := List.takeWhile_eq_self_iff.mp all 35 mark
    simp at without
  rw [urlQuery, urlText_append clean, shorter, urlQuery]

/-- Otherwise the query is continued. -/
theorem urlQuery_append (whole : 35 ∉ url) (plain : 35 ∉ text)
    (clean : ∀ b ∈ text, b ≠ 9 ∧ b ≠ 10 ∧ b ≠ 13) (asked : 63 ∈ url) :
    ∃ query, urlQuery url = some query ∧ urlQuery (url ++ text) = some (query ++ text) := by
  have unmarked : 35 ∉ urlText url := mt (mem_urlText (by decide)).mp whole
  have both : 35 ∉ urlText url ++ text := by simp [unmarked, plain]
  have opens : (urlText url).dropWhile (· != 63) ≠ [] := by
    intro empty
    have without := List.dropWhile_eq_nil_iff.mp empty 63 ((mem_urlText (by decide)).mpr asked)
    simp at without
  obtain ⟨mark, query, shape⟩ := List.exists_cons_of_ne_nil opens
  refine ⟨query, ?_, ?_⟩
  · rw [urlQuery, takeWhile_of_not_mem unmarked, shape]
  · have longer : (urlText url ++ text).dropWhile (· != 63) = mark :: query ++ text := by
      rw [List.dropWhile_append, shape]
      rfl
    rw [urlQuery, urlText_append clean, takeWhile_of_not_mem both, longer, List.cons_append]

/-- Or it begins with the text. -/
theorem urlQuery_begin (whole : 35 ∉ url) (plain : 35 ∉ text)
    (clean : ∀ b ∈ text, b ≠ 9 ∧ b ≠ 10 ∧ b ≠ 13) (unasked : 63 ∉ url) :
    urlQuery url = none ∧ urlQuery (url ++ 63 :: text) = some text := by
  have unmarked : 35 ∉ urlText url := mt (mem_urlText (by decide)).mp whole
  have both : 35 ∉ urlText url ++ 63 :: text := by simp [unmarked, plain]
  have nothing : (urlText url).dropWhile (· != 63) = [] :=
    dropWhile_of_not_mem (mt (mem_urlText (by decide)).mp unasked)
  have asks : ∀ b ∈ 63 :: text, b ≠ 9 ∧ b ≠ 10 ∧ b ≠ 13 := by
    rw [List.forall_mem_cons]
    exact ⟨by decide, clean⟩
  constructor
  · rw [urlQuery, takeWhile_of_not_mem unmarked, nothing]
  · have longer : (urlText url ++ 63 :: text).dropWhile (· != 63) = 63 :: text := by
      rw [List.dropWhile_append, nothing]
      rfl
    rw [urlQuery, urlText_append asks, takeWhile_of_not_mem both, longer]

end Append

/-! ### Forms -/

theorem formMembers_append (first second : Bytes) :
    formMembers (first ++ 38 :: second) = formMembers first ++ formMembers second := by
  rw [formMembers, List.splitOn_append_cons_self, List.filter_append, List.map_append]
  rfl

theorem percentDecode_plain {text : Bytes} (plain : ∀ b ∈ text, b ≠ 37) :
    percentDecode text = text := by
  induction text with
  | nil => rfl
  | cons b rest ih =>
    have tail := ih fun c member => plain c (List.mem_cons_of_mem _ member)
    rw [percentDecode.eq_def]
    split
    · rename_i same
      exact absurd (List.cons.inj same).1 (plain b List.mem_cons_self)
    · rename_i same
      obtain ⟨rfl, rfl⟩ := List.cons.inj same
      rw [tail]
    · contradiction

/-- A byte that stands for itself in a name or a value, such as a letter, a digit or a dash. -/
structure IsFormByte (b : UInt8) : Prop where
  clean : b ≠ 9 ∧ b ≠ 10 ∧ b ≠ 13
  fragment : b ≠ 35
  percent : b ≠ 37
  separator : b ≠ 38
  plus : b ≠ 43
  equals : b ≠ 61

instance : DecidablePred IsFormByte := fun b =>
  decidable_of_iff ((b ≠ 9 ∧ b ≠ 10 ∧ b ≠ 13) ∧ b ≠ 35 ∧ b ≠ 37 ∧ b ≠ 38 ∧ b ≠ 43 ∧ b ≠ 61)
    ⟨fun ⟨c, f, p, s, u, e⟩ => ⟨c, f, p, s, u, e⟩, fun ⟨c, f, p, s, u, e⟩ => ⟨c, f, p, s, u, e⟩⟩

theorem formDecode_plain {text : Bytes} (plain : ∀ b ∈ text, IsFormByte b) :
    formDecode text = text := by
  have same : text.map (fun b => if b = 43 then 32 else b) = text := by
    refine (List.map_congr_left fun b member => ?_).trans (List.map_id _)
    exact if_neg (plain b member).plus
  rw [formDecode, same, percentDecode_plain fun b member => (plain b member).percent]

/-- One name with its value. -/
theorem formMembers_plain {name value : Bytes} (plainName : ∀ b ∈ name, IsFormByte b)
    (plainValue : ∀ b ∈ value, IsFormByte b) :
    formMembers (name ++ 61 :: value) = [(name, value)] := by
  have single : 38 ∉ name ++ 61 :: value := by
    intro separator
    rcases List.mem_append.mp separator with inName | rest
    · exact (plainName 38 inName).separator rfl
    · rcases List.mem_cons.mp rest with equals | inValue
      · cases equals
      · exact (plainValue 38 inValue).separator rfl
  have noEquals : 61 ∉ name := fun inside => (plainName 61 inside).equals rfl
  have before : (name ++ 61 :: value).takeWhile (· != 61) = name := by
    rw [List.takeWhile_append, takeWhile_of_not_mem noEquals, if_pos rfl]
    exact List.append_nil _
  have behind : (name ++ 61 :: value).dropWhile (· != 61) = 61 :: value := by
    rw [List.dropWhile_append, dropWhile_of_not_mem noEquals]
    rfl
  have nonempty : name ++ 61 :: value ≠ [] := by simp
  rw [formMembers, List.splitOn_eq_singleton single, List.filter_cons_of_pos (by simp),
    List.filter_nil, List.map_singleton, formMember, before, behind, List.tail_cons,
    formDecode_plain plainName, formDecode_plain plainValue]

/-- `url` with one more parameter, as the client adds it. -/
def addParam (url name value : Bytes) : Bytes :=
  url ++ (if 63 ∈ url then 38 else 63) :: (name ++ 61 :: value)

/-- What is added to a URL is found unless the URL already has a parameter of this name, or a
fragment. -/
theorem searchParam_add (url : Bytes) {name value : Bytes}
    (plainName : ∀ b ∈ name, IsFormByte b) (plainValue : ∀ b ∈ value, IsFormByte b) :
    searchParam name (addParam url name value) =
      (searchParam name url).or (if 35 ∈ url then none else some value) := by
  have own : List.lookup name [(name, value)] = some value := by simp
  have plain : 35 ∉ name ++ 61 :: value := by
    intro fragment
    rcases List.mem_append.mp fragment with inName | rest
    · exact (plainName 35 inName).fragment rfl
    · rcases List.mem_cons.mp rest with equals | inValue
      · cases equals
      · exact (plainValue 35 inValue).fragment rfl
  have clean : ∀ b ∈ name ++ 61 :: value, b ≠ 9 ∧ b ≠ 10 ∧ b ≠ 13 := by
    rw [List.forall_mem_append, List.forall_mem_cons]
    exact ⟨fun b member => (plainName b member).clean, by decide,
      fun b member => (plainValue b member).clean⟩
  have joined (glue : UInt8) (known : glue ≠ 9 ∧ glue ≠ 10 ∧ glue ≠ 13) :
      ∀ b ∈ glue :: (name ++ 61 :: value), b ≠ 9 ∧ b ≠ 10 ∧ b ≠ 13 := by
    rw [List.forall_mem_cons]
    exact ⟨known, clean⟩
  rw [addParam]
  by_cases fragment : 35 ∈ url
  · have glued := joined (if 63 ∈ url then 38 else 63) (by split_ifs <;> decide)
    rw [searchParam, urlQuery_of_fragment fragment glued, if_pos fragment, Option.or_none,
      searchParam]
  · rw [if_neg fragment]
    by_cases asked : 63 ∈ url
    · have continued : 35 ∉ 38 :: (name ++ 61 :: value) := by simpa using plain
      obtain ⟨query, before, after⟩ :=
        urlQuery_append fragment continued (joined 38 (by decide)) asked
      rw [if_pos asked, searchParam, after, searchParam, before, Option.bind_some,
        Option.bind_some, formMembers_append, formMembers_plain plainName plainValue,
        List.lookup_append, own]
    · obtain ⟨before, after⟩ := urlQuery_begin fragment plain clean asked
      rw [if_neg asked, searchParam, after, searchParam, before, Option.bind_some,
        formMembers_plain plainName plainValue, own]
      rfl

end Js
