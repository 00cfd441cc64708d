import Tether.Semantics.Lookup
import Tether.Semantics.WriteThrough
import Tether.Text.Bytes

/-!
# Known tokens

The tokens that receivers have been given, each with a name if the user has named it. The
store is written to its file at every change, and read from it when it is set up.

## Main definitions

* `TokenEntry`, `KnownTokens` — an entry, and the store with its file
* `KnownTokens.init`, `shutdown`, `add`, `remove`, `setName` — the operations
* `KnownTokens.Takes` — an `add` that adds
* `KnownTokens.Call` — a call of the store, which is shut down only to be set up again
* `KnownTokens.edited` — what the list of tokens is after a call, as a list

## Main results

* `add_of_takes`, `add_of_not_takes` — what an `add` does
* `Sound.stored_after` — the store is a memory that is saved at every change
* `known_tokens_survive` — the file has the list, and a restart leaves it as it is
* `restarts_do_not_matter` — the list after a run is the one after its edits alone
-/

namespace Tether.Plugin

open Text Semantics

/-- `struct token_entry`. As an item of the file its texts are empty if they are missing. -/
structure TokenEntry where
  token : Bytes
  name : Option Bytes
  deriving DecidableEq

/-- The store. `path` says whether `config_path` finds a place for the file, and `file` holds
the items of `known_tokens.json` if there is one; saving succeeds. -/
structure KnownTokens where
  initialised : Bool
  entries : List TokenEntry
  path : Bool
  file : Option (List TokenEntry)
  deriving DecidableEq

namespace KnownTokens

/-- An empty text is no name. -/
def nameOf (name : Option Bytes) : Option Bytes := name.filter (· ≠ [])

def loadFromDiskLocked (k : KnownTokens) : KnownTokens :=
  if k.path then
    -- entries of the file without a token are skipped
    let items := (k.file.getD []).filter (·.token ≠ [])
    { k with entries := k.entries ++ items.map fun item => ⟨item.token, nameOf item.name⟩ }
  else k

def saveToDiskLocked (k : KnownTokens) : KnownTokens :=
  if k.path then { k with file := some k.entries } else k

def init (k : KnownTokens) : KnownTokens :=
  if k.initialised then k
  else loadFromDiskLocked { k with initialised := true, entries := [] }

def shutdown (k : KnownTokens) : KnownTokens := { k with initialised := false, entries := [] }

def add (k : KnownTokens) (token : Bytes) : KnownTokens × Bool :=
  if token = [] then (k, false)
  else if !k.initialised then (k, false)
  else if k.entries.any (·.token = token) then (k, false)
  else (saveToDiskLocked { k with entries := k.entries ++ [⟨token, none⟩] }, true)

def remove (k : KnownTokens) (token : Bytes) : KnownTokens × Bool :=
  if !k.initialised then (k, false)
  else if k.entries.any (·.token = token) then
    (saveToDiskLocked { k with entries := k.entries.eraseP (·.token = token) }, true)
  else (k, false)

def setName (k : KnownTokens) (token : Bytes) (name : Option Bytes) : KnownTokens × Bool :=
  if !k.initialised then (k, false)
  else if k.entries.any (·.token = token) then
    (saveToDiskLocked { k with
      entries := replaceFirst TokenEntry.token token
        (fun e => { e with name := nameOf name }) k.entries }, true)
  else (k, false)

/-- A call of the store. -/
inductive Op
  | init
  | shutdown
  | add (token : Bytes)
  | remove (token : Bytes)
  | setName (token : Bytes) (name : Option Bytes)
  deriving DecidableEq

def next (k : KnownTokens) : Op → KnownTokens
  | .init => k.init
  | .shutdown => k.shutdown
  | .add token => (k.add token).1
  | .remove token => (k.remove token).1
  | .setName token name => (k.setName token name).1

/-! ### What an `add` does -/

/-- The store is set up and has no entry of this text, which is not empty. -/
def Takes (k : KnownTokens) (token : Bytes) : Prop :=
  token ≠ [] ∧ k.initialised = true ∧ ∀ e ∈ k.entries, e.token ≠ token

instance (k : KnownTokens) (token : Bytes) : Decidable (k.Takes token) :=
  inferInstanceAs (Decidable (_ ∧ _ ∧ _))

variable {k : KnownTokens} {token : Bytes}

@[simp] theorem saveToDiskLocked_entries : k.saveToDiskLocked.entries = k.entries := by
  rw [saveToDiskLocked]
  split_ifs <;> rfl

theorem add_of_takes (takes : k.Takes token) :
    k.add token = (saveToDiskLocked { k with entries := k.entries ++ [⟨token, none⟩] }, true) := by
  obtain ⟨text, up, fresh⟩ := takes
  rw [add, if_neg text, up, if_neg (by simp), if_neg]
  simpa using fresh

theorem add_of_not_takes (known : ¬ k.Takes token) : k.add token = (k, false) := by
  rw [add]
  by_cases empty : token = []
  · rw [if_pos empty]
  · rw [if_neg empty]
    cases up : k.initialised with
    | false => rfl
    | true =>
      rw [if_neg (by simp), if_pos]
      -- the store is up and the text is not empty, so that an entry has it
      by_contra none
      exact known ⟨empty, up, by simpa using none⟩

/-! ### The list of tokens -/

/-- A change of the list. -/
inductive Edit
  | add (token : Bytes)
  | remove (token : Bytes)
  | setName (token : Bytes) (name : Option Bytes)
  deriving DecidableEq

/-- The list after a change. A name is given to the entry of the token and to no other. -/
def edited (entries : List TokenEntry) : Edit → List TokenEntry
  | .add token =>
    if token = [] ∨ ∃ e ∈ entries, e.token = token then entries else entries ++ [⟨token, none⟩]
  | .remove token => entries.filter (·.token ≠ token)
  | .setName token name =>
    entries.map fun e => if e.token = token then { e with name := nameOf name } else e

/-- No token is empty, no name is, and no two tokens are the same. -/
structure Listed (entries : List TokenEntry) : Prop where
  tokens : ∀ e ∈ entries, e.token ≠ []
  names : ∀ e ∈ entries, nameOf e.name = e.name
  distinct : (entries.map TokenEntry.token).Nodup

variable {entries : List TokenEntry}

@[simp] theorem nameOf_none : nameOf none = none := rfl

@[simp] theorem nameOf_nameOf (name : Option Bytes) : nameOf (nameOf name) = nameOf name := by
  cases name with
  | none => rfl
  | some text => by_cases empty : text = [] <;> simp [nameOf, Option.filter, empty]

theorem Listed.nil : Listed [] := ⟨by simp, by simp, by simp⟩

theorem Listed.edited (listed : Listed entries) (edit : Edit) :
    Listed (KnownTokens.edited entries edit) := by
  cases edit with
  | add token =>
    rw [KnownTokens.edited]
    split_ifs with known
    · exact listed
    · obtain ⟨text, fresh⟩ := not_or.mp known
      refine ⟨fun e member => ?_, fun e member => ?_, ?_⟩
      · rcases List.mem_append.mp member with old | new
        · exact listed.tokens e old
        · obtain rfl := List.mem_singleton.mp new
          exact text
      · rcases List.mem_append.mp member with old | new
        · exact listed.names e old
        · obtain rfl := List.mem_singleton.mp new
          rfl
      · rw [List.map_append, List.map_singleton, ← List.concat_eq_append]
        refine listed.distinct.concat fun twice => fresh ?_
        obtain ⟨e, there, same⟩ := List.mem_map.mp twice
        exact ⟨e, there, same⟩
  | remove token =>
    refine ⟨fun e member => ?_, fun e member => ?_, ?_⟩
    · exact listed.tokens e (List.mem_of_mem_filter member)
    · exact listed.names e (List.mem_of_mem_filter member)
    · exact listed.distinct.sublist (List.filter_sublist.map _)
  | setName token name =>
    refine ⟨fun e member => ?_, fun e member => ?_, ?_⟩
    · obtain ⟨old, there, rfl⟩ := List.mem_map.mp member
      split_ifs <;> exact listed.tokens old there
    · obtain ⟨old, there, rfl⟩ := List.mem_map.mp member
      split_ifs
      · exact nameOf_nameOf name
      · exact listed.names old there
    · have same : (KnownTokens.edited entries (.setName token name)).map TokenEntry.token =
          entries.map TokenEntry.token := by
        rw [KnownTokens.edited, List.map_map]
        refine List.map_congr_left fun e _ => ?_
        rw [Function.comp_apply]
        split_ifs <;> rfl
      rw [same]
      exact listed.distinct

/-! ### The list and its file -/

/-- The items of a file. A file that is not there has none. -/
def content (k : KnownTokens) : List TokenEntry := k.file.getD []

/-- The entries that a list of items is read as. -/
def entriesOf (items : List TokenEntry) : List TokenEntry :=
  (items.filter (·.token ≠ [])).map fun item => ⟨item.token, nameOf item.name⟩

theorem Listed.entriesOf (listed : Listed entries) : entriesOf entries = entries := by
  have all : entries.filter (·.token ≠ []) = entries := by
    refine List.filter_eq_self.mpr fun e member => ?_
    simpa using listed.tokens e member
  rw [KnownTokens.entriesOf, all]
  refine List.map_congr_left (fun e member => ?_) |>.trans entries.map_id
  rw [listed.names e member]
  rfl

/-- The list of tokens, saved as the items of the file. -/
def storage : Storage (List TokenEntry) (List TokenEntry) where
  save entries := entries
  load := entriesOf
  Valid := Listed
  load_save _ listed := listed.entriesOf

theorem listed_edited (entries : List TokenEntry) (edit : Edit) (listed : storage.Valid entries) :
    storage.Valid (edited entries edit) := Listed.edited listed edit

/-- The store as a memory and its image. -/
def stored (k : KnownTokens) : Stored (List TokenEntry) (List TokenEntry) := ⟨k.entries, k.content⟩

/-- A call of the store, which is shut down only to be set up again. A token that is not
given at all changes nothing, as the empty one does. -/
inductive Call
  | init
  | change (edit : Edit)
  | restart
  deriving DecidableEq

def Edit.op : Edit → Op
  | .add token => .add token
  | .remove token => .remove token
  | .setName token name => .setName token name

/-- The change that a call makes to a store that is set up. -/
def Call.edit : Call → Option Edit
  | .init => none
  | .change edit => some edit
  | .restart => none

def after (k : KnownTokens) : Call → KnownTokens
  | .init => k.next .init
  | .change edit => k.next edit.op
  | .restart => (k.next .shutdown).next .init

/-- Nothing is set up, and there is no file. -/
def start : KnownTokens := ⟨false, [], true, none⟩

/-- The file can be written, and its items are the entries, which are as they should be. -/
structure Sound (k : KnownTokens) : Prop where
  path : k.path = true
  down : k.initialised = false → k.entries = []
  synced : storage.Synced k.stored

theorem sound_start : Sound start := ⟨rfl, fun _ => rfl, .nil, rfl⟩

theorem Sound.listed (sound : Sound k) : Listed k.entries := sound.synced.valid

theorem Sound.content (sound : Sound k) : k.content = k.entries := sound.synced.saved

theorem known_iff : k.entries.any (·.token = token) = true ↔ ∃ e ∈ k.entries, e.token = token := by
  simp

/-- A change is saved, or it changes nothing. -/
theorem Sound.next_edit (sound : Sound k) (up : k.initialised = true) (edit : Edit) :
    edited k.entries edit = k.entries ∧ k.next edit.op = k ∨
      k.next edit.op = saveToDiskLocked { k with entries := edited k.entries edit } := by
  have distinct := sound.listed.distinct
  cases edit with
  | add token =>
    rw [Edit.op, next, edited]
    by_cases takes : k.Takes token
    · rw [add_of_takes takes, if_neg]
      · exact .inr rfl
      · rintro (empty | ⟨e, there, same⟩)
        · exact takes.1 empty
        · exact takes.2.2 e there same
    · rw [add_of_not_takes takes, if_pos]
      · exact .inl ⟨rfl, rfl⟩
      · by_contra neither
        obtain ⟨text, fresh⟩ := not_or.mp neither
        exact takes ⟨text, up, fun e there same => fresh ⟨e, there, same⟩⟩
  | remove token =>
    rw [Edit.op, next, remove, up, if_neg (by simp), edited]
    by_cases known : k.entries.any (·.token = token)
    · rw [if_pos known, eraseP_key_eq_filter distinct]
      exact .inr rfl
    · rw [if_neg known]
      refine .inl ⟨List.filter_eq_self.mpr fun e there => ?_, rfl⟩
      rw [known_iff] at known
      simpa using fun same => known ⟨e, there, same⟩
  | setName token name =>
    rw [Edit.op, next, setName, up, if_neg (by simp), edited]
    by_cases known : k.entries.any (·.token = token)
    · rw [if_pos known, replaceFirst_eq_map distinct]
      exact .inr rfl
    · rw [if_neg known]
      refine .inl ⟨List.map_congr_left (fun e there => ?_) |>.trans k.entries.map_id, rfl⟩
      rw [known_iff] at known
      rw [if_neg fun same => known ⟨e, there, same⟩]
      rfl

/-- What is set up is what the file has. -/
theorem Sound.restart_eq (sound : Sound k) :
    k.after .restart = { k with initialised := true } := by
  have loaded : entriesOf (k.file.getD []) = k.entries :=
    (congrArg entriesOf sound.content).trans sound.listed.entriesOf
  rw [after, next, next, shutdown, init, if_neg (by simp), loadFromDiskLocked, if_pos sound.path]
  rw [entriesOf] at loaded
  simp only [loaded, List.nil_append]

theorem Sound.init_eq (sound : Sound k) : k.after .init = { k with initialised := true } := by
  cases up : k.initialised with
  | true =>
    rw [after, next, init, if_pos up, ← up]
  | false =>
    -- a store that is not set up is one that has been shut down
    have same : k.shutdown = k := by
      rw [shutdown, ← up, ← sound.down up]
    have restart := sound.restart_eq
    rwa [after, next, next, same] at restart

theorem next_edit_of_down (down : k.initialised = false) (edit : Edit) : k.next edit.op = k := by
  cases edit with
  | add token =>
    have known : ¬ k.Takes token := by
      intro takes
      rw [takes.2.1] at down
      cases down
    rw [Edit.op, next, add_of_not_takes known]
  | remove token => rw [Edit.op, next, remove, down, if_pos (by simp)]
  | setName token name => rw [Edit.op, next, setName, down, if_pos (by simp)]

/-- The store is a memory that is saved at every change. -/
theorem Sound.stored_after (sound : Sound k) (up : k.initialised = true) (call : Call) :
    (k.after call).stored = storage.next edited k.stored call.edit := by
  cases call with
  | init =>
    rw [sound.init_eq, Call.edit, sound.synced.restart]
    rfl
  | restart =>
    rw [sound.restart_eq, Call.edit, sound.synced.restart]
    rfl
  | change edit =>
    rw [after, Call.edit]
    rcases sound.next_edit up edit with ⟨same, unchanged⟩ | saved
    · rw [unchanged, sound.synced.next_of_same same]
    · rw [saved, saveToDiskLocked, if_pos sound.path]
      rfl

theorem Sound.up_after (sound : Sound k) (up : k.initialised = true) (call : Call) :
    (k.after call).initialised = true ∧ (k.after call).path = true := by
  cases call with
  | init =>
    rw [sound.init_eq]
    exact ⟨rfl, sound.path⟩
  | restart =>
    rw [sound.restart_eq]
    exact ⟨rfl, sound.path⟩
  | change edit =>
    rw [after]
    rcases sound.next_edit up edit with ⟨_, unchanged⟩ | saved
    · rw [unchanged]
      exact ⟨up, sound.path⟩
    · rw [saved, saveToDiskLocked, if_pos sound.path]
      exact ⟨up, sound.path⟩

theorem Sound.after (sound : Sound k) (call : Call) : Sound (k.after call) := by
  cases up : k.initialised with
  | true =>
    obtain ⟨stays, path⟩ := sound.up_after up call
    refine ⟨path, fun down => ?_, ?_⟩
    · rw [stays] at down
      cases down
    · rw [sound.stored_after up call]
      exact sound.synced.next listed_edited call.edit
  | false =>
    cases call with
    | init =>
      rw [sound.init_eq]
      exact ⟨sound.path, fun down => (by cases down), sound.synced⟩
    | restart =>
      rw [sound.restart_eq]
      exact ⟨sound.path, fun down => (by cases down), sound.synced⟩
    | change edit =>
      rw [KnownTokens.after, next_edit_of_down up]
      exact sound

/-- Set up or not, the list is what it is with the change made. -/
theorem Sound.entries_change (sound : Sound k) (edit : Edit)
    (nothing : edited [] edit = []) :
    (k.after (.change edit)).entries = edited k.entries edit := by
  cases up : k.initialised with
  | true => exact congrArg Stored.memory (sound.stored_after up (.change edit))
  | false => rw [KnownTokens.after, next_edit_of_down up, sound.down up, nothing]

/-- The file has the list all along, and the restarts leave the list as it is. A token that
is removed, or named, leaves the other entries alone. -/
theorem known_tokens_survive (calls : List Call) :
    let k := run after start calls
    k.content = k.entries ∧
      (∀ e ∈ k.entries, e.token ≠ []) ∧ (k.entries.map TokenEntry.token).Nodup ∧
      (k.after .restart).entries = k.entries ∧
      (∀ token, (k.after (.change (.remove token))).entries =
        k.entries.filter (·.token ≠ token)) ∧
      ∀ token name, (k.after (.change (.setName token name))).entries =
        k.entries.map fun e => if e.token = token then ⟨e.token, nameOf name⟩ else e := by
  intro k
  have sound : Sound k := run_invariant after start (fun _ call sound => sound.after call)
    sound_start calls
  refine ⟨sound.content, sound.listed.tokens, sound.listed.distinct, ?_, ?_, ?_⟩
  · rw [sound.restart_eq]
  · intro token
    exact sound.entries_change (.remove token) rfl
  · intro token name
    exact sound.entries_change (.setName token name) rfl

/-- The list after a run is the one after its changes alone. -/
theorem restarts_do_not_matter (calls : List Call) :
    (run after start (.init :: calls)).entries =
      run edited [] (calls.map Call.edit).reduceOption := by
  have runs (k : KnownTokens) (sound : Sound k) (up : k.initialised = true) :
      (run after k calls).stored = run (storage.next edited) k.stored (calls.map Call.edit) := by
    induction calls generalizing k with
    | nil => rfl
    | cons call calls ih =>
      rw [run_cons, ih _ (sound.after call) (sound.up_after up call).1, sound.stored_after up call]
      rfl
  have sound := sound_start.after .init
  have stored := runs _ sound (by rw [sound_start.init_eq])
  have memory := sound.synced.run listed_edited (calls.map Call.edit)
  have empty : (start.after .init).entries = [] := by
    rw [sound_start.init_eq]
    rfl
  rw [run_cons, ← empty]
  exact (congrArg Stored.memory stored).trans memory

end KnownTokens

end Tether.Plugin
