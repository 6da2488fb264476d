import PretradeRisk.KeyValue

namespace PretradeRisk.Backends

open KeyValue

/-- `_data`. A batch has no point at which it could be cut short. -/
def inMemoryStateStore : Backend (Dict String String) String String where
  fresh data := data = []
  serves data request data' answer :=
    match request with
    | .get key => data' = data ∧ answer = .value (data.get key)
    | .getMany keys => data' = data ∧ answer = .values (Dict.of keys data.get).get
    | .set key value => data' = data.set (key, value) ∧ answer = .done
    | .setMany entries => data' = data.update entries ∧ answer = .done
  breaks _ _ _ := False

/-- A store of single keys, and that it keeps them. -/
structure SingleKeys (σ : Type) where
  fresh : σ
  get : σ → String → Option String
  set : σ → String → String → σ
  get_fresh : ∀ key, get fresh key = none
  get_set : ∀ x key value, get (set x key value) = Function.update (get x) key (some value)

variable {σ : Type}

def SingleKeys.setMany (store : SingleKeys σ) (x : σ) (entries : List (String × String)) : σ :=
  entries.foldl (fun x entry => store.set x entry.1 entry.2) x

def sequentialBatchMixin (store : SingleKeys σ) : Backend σ String String where
  fresh x := x = store.fresh
  serves x request x' answer :=
    match request with
    | .get key => x' = x ∧ answer = .value (store.get x key)
    | .getMany keys => x' = x ∧ answer = .values (Dict.of keys (store.get x)).get
    | .set key value => x' = store.set x key value ∧ answer = .done
    | .setMany entries => x' = store.setMany x entries ∧ answer = .done
  breaks x entries x' := ∃ k, x' = store.setMany x (entries.take k)

structure Row where
  key : String
  value : String
  updatedAt : String

def Row.entry (row : Row) : String × String := (row.key, row.value)

/-- `_prepare` executes these two. -/
inductive Statement
  | journalModeWal
  | schema

/-- What the store asks of `aiosqlite`, over files and open connections: an
operation relates the connection it is made on to the one it returns on. -/
structure Aiosqlite (φ δ : Type) where
  absent : φ → Prop
  connect : φ → δ → Prop
  execute : Statement → δ → δ → Prop
  /-- `SELECT value FROM state WHERE key = ?` -/
  fetchone : δ → String → Option String → Prop
  /-- `SELECT key, value FROM state WHERE key IN (...)` -/
  fetchall : δ → List String → List (String × String) → Prop
  /-- `_UPSERT`, for each row -/
  executemany : δ → List Row → δ → Prop
  commit : δ → δ → Prop
  /-- the file a connection leaves when it is closed, or lost at any time
  before a commit is asked of it -/
  leaves : δ → φ → Prop
  /-- the file a connection leaves when it is lost during a commit -/
  tears : δ → φ → Prop

variable {φ δ : Type}

/-- What SQLite documents of these: a connection sees its own writes, they are
in the file from the commit on, and a commit is atomic. -/
structure Aiosqlite.Documented (db : Aiosqlite φ δ) (rows : φ → Contents String String)
    (committed seen : δ → Contents String String) : Prop where
  absent : ∀ {f}, db.absent f → rows f = Contents.nothing
  connect : ∀ {f d}, db.connect f d → committed d = rows f ∧ seen d = rows f
  execute : ∀ {statement d d'}, db.execute statement d d' → committed d' = committed d ∧ seen d' = seen d
  fetchone : ∀ {d key found}, db.fetchone d key found → found = seen d key
  fetchall : ∀ {d keys found}, db.fetchall d keys found → (found.map Prod.fst).Nodup ∧
    ∀ key value, (key, value) ∈ found ↔ key ∈ keys ∧ seen d key = some value
  executemany : ∀ {d rows d'}, db.executemany d rows d' →
    committed d' = committed d ∧ seen d' = (seen d).putAll (rows.map Row.entry)
  commit : ∀ {d d'}, db.commit d d' → committed d' = seen d
  leaves : ∀ {d f}, db.leaves d f → rows f = committed d
  tears : ∀ {d f}, db.tears d f → rows f = committed d ∨ rows f = seen d
  connects : ∀ f, ∃ d, db.connect f d
  executes : ∀ statement d, ∃ d', db.execute statement d d'
  fetches : ∀ d key, ∃ found, db.fetchone d key found
  fetchesAll : ∀ d keys, ∃ found, db.fetchall d keys found
  upserts : ∀ d rows, ∃ d', db.executemany d rows d'
  commits : ∀ d, ∃ d', db.commit d d'
  closes : ∀ d, ∃ f, db.leaves d f

namespace SqliteStateStore

variable (db : Aiosqlite φ δ)

def Prepare (d d' : δ) : Prop := ∃ d₁, db.execute .journalModeWal d d₁ ∧ db.execute .schema d₁ d'

/-- `connect`, then `_prepare` -/
def Opens (f : φ) (d : δ) : Prop := ∃ d₁, db.connect f d₁ ∧ Prepare db d₁ d

def Get (f : φ) (key : String) (f' : φ) (row : Option String) : Prop :=
  ∃ d, Opens db f d ∧ db.fetchone d key row ∧ db.leaves d f'

def GetMany (f : φ) (keys : List String) (f' : φ) (values : Dict String (Option String)) : Prop :=
  if keys = [] then f' = f ∧ values = []
  else ∃ d rows, Opens db f d ∧ db.fetchall d keys rows ∧ db.leaves d f' ∧
    values = Dict.of keys (Dict.update [] rows).get

def stamped (entries : List (String × String)) (stamp : String) : List Row :=
  entries.map fun entry => ⟨entry.1, entry.2, stamp⟩

def SetMany (f : φ) (entries : List (String × String)) (f' : φ) : Prop :=
  if entries = [] then f' = f
  else ∃ stamp d d₁ d₂, Opens db f d ∧ db.executemany d (stamped entries stamp) d₁ ∧ db.commit d₁ d₂ ∧ db.leaves d₂ f'

/-- A `set_many` that does not return, by where it stood. -/
inductive Cut (f : φ) (entries : List (String × String)) : φ → Prop
  | connecting : Cut f entries f
  | connected {d : δ} {f' : φ} (hd : db.connect f d) (hf : db.leaves d f') : Cut f entries f'
  | preparing {d d₁ : δ} {f' : φ} (hd : db.connect f d) (hd₁ : db.execute .journalModeWal d d₁)
      (hf : db.leaves d₁ f') : Cut f entries f'
  | prepared {d : δ} {f' : φ} (hd : Opens db f d) (hf : db.leaves d f') : Cut f entries f'
  | upserted {stamp : String} {d d₁ : δ} {f' : φ} (hd : Opens db f d)
      (hd₁ : db.executemany d (stamped entries stamp) d₁) (hf : db.leaves d₁ f') : Cut f entries f'
  | committing {stamp : String} {d d₁ : δ} {f' : φ} (hd : Opens db f d)
      (hd₁ : db.executemany d (stamped entries stamp) d₁) (hf : db.tears d₁ f') : Cut f entries f'
  | committed {stamp : String} {d d₁ d₂ : δ} {f' : φ} (hd : Opens db f d)
      (hd₁ : db.executemany d (stamped entries stamp) d₁) (hd₂ : db.commit d₁ d₂) (hf : db.leaves d₂ f') :
      Cut f entries f'

end SqliteStateStore

open SqliteStateStore in
def sqliteStateStore (db : Aiosqlite φ δ) : Backend φ String String where
  fresh := db.absent
  serves f request f' answer :=
    match request with
    | .get key => ∃ row, Get db f key f' row ∧ answer = .value row
    | .getMany keys => ∃ values, GetMany db f keys f' values ∧ answer = .values values.get
    | .set key value => SetMany db f [(key, value)] f' ∧ answer = .done
    | .setMany entries => SetMany db f entries f' ∧ answer = .done
  breaks f entries f' := entries ≠ [] ∧ Cut db f entries f'

theorem inMemoryStateStore_implements : Implements inMemoryStateStore AllOrNone Dict.get where
  fresh := by
    rintro data rfl
    rfl
  total := by rintro data (key | keys | ⟨key, value⟩ | entries) <;> exact ⟨_, _, rfl, rfl⟩
  serves := by
    rintro data (key | keys | ⟨key, value⟩ | entries) data' answer ⟨rfl, rfl⟩
    · rfl
    · exact congrArg (fun found => (data'.get, Answer.values found)) (get_of_eq_asked keys data'.get)
    · exact congrArg (·, Answer.done) (get_set data (key, value))
    · exact congrArg (·, Answer.done) (get_update data entries)
  breaks := fun h => h.elim

theorem get_setMany (store : SingleKeys σ) (x : σ) (entries : List (String × String)) :
    store.get (store.setMany x entries) = Contents.putAll (store.get x) entries := by
  induction entries generalizing x with
  | nil => rfl
  | cons entry entries ih =>
      rw [SingleKeys.setMany, List.foldl_cons, ← SingleKeys.setMany, ih, store.get_set]
      rfl

theorem sequentialBatchMixin_implements (store : SingleKeys σ) :
    Implements (sequentialBatchMixin store) Beginnings store.get where
  fresh := by
    rintro x rfl
    exact funext store.get_fresh
  total := by rintro x (key | keys | ⟨key, value⟩ | entries) <;> exact ⟨_, _, rfl, rfl⟩
  serves := by
    rintro x (key | keys | ⟨key, value⟩ | entries) x' answer ⟨rfl, rfl⟩
    · rfl
    · exact congrArg (fun found => (store.get x', Answer.values found)) (get_of_eq_asked keys (store.get x'))
    · exact congrArg (·, Answer.done) (store.get_set x key value)
    · exact congrArg (·, Answer.done) (get_setMany store x entries)
  breaks := by
    rintro x entries x' ⟨k, rfl⟩
    exact ⟨_, List.take_prefix k entries, get_setMany store x (entries.take k)⟩

section Sqlite

open SqliteStateStore

variable {db : Aiosqlite φ δ} {rows : φ → Contents String String} {committed seen : δ → Contents String String}
  {f f' : φ} {d d' : δ} {entries : List (String × String)}

theorem opens_rows (h : db.Documented rows committed seen) (hd : Opens db f d) :
    committed d = rows f ∧ seen d = rows f := by
  obtain ⟨d₁, hconnect, d₂, hwal, hschema⟩ := hd
  obtain ⟨hcommitted, hseen⟩ := h.connect hconnect
  obtain ⟨hcommitted₁, hseen₁⟩ := h.execute hwal
  obtain ⟨hcommitted₂, hseen₂⟩ := h.execute hschema
  exact ⟨by rw [hcommitted₂, hcommitted₁, hcommitted], by rw [hseen₂, hseen₁, hseen]⟩

theorem exists_opens (h : db.Documented rows committed seen) (f : φ) : ∃ d, Opens db f d := by
  obtain ⟨d, hd⟩ := h.connects f
  obtain ⟨d₁, hd₁⟩ := h.executes .journalModeWal d
  obtain ⟨d₂, hd₂⟩ := h.executes .schema d₁
  exact ⟨d₂, d, hd, d₁, hd₁, hd₂⟩

theorem entry_stamped (entries : List (String × String)) (stamp : String) :
    (stamped entries stamp).map Row.entry = entries := by
  rw [stamped, List.map_map]
  exact List.map_id entries

/-- The rows are written in the transaction, and in the file untouched. -/
theorem upserted_rows (h : db.Documented rows committed seen) (hd : Opens db f d) {stamp : String}
    (hd' : db.executemany d (stamped entries stamp) d') :
    committed d' = rows f ∧ seen d' = (rows f).putAll entries := by
  obtain ⟨hcommitted, hseen⟩ := h.executemany hd'
  obtain ⟨hcommitted₀, hseen₀⟩ := opens_rows h hd
  rw [entry_stamped] at hseen
  exact ⟨hcommitted.trans hcommitted₀, by rw [hseen, hseen₀]⟩

theorem rows_of_get (h : db.Documented rows committed seen) {key : String} {row : Option String}
    (hget : Get db f key f' row) : rows f' = rows f ∧ row = rows f key := by
  obtain ⟨d, hd, hrow, hf⟩ := hget
  obtain ⟨hcommitted, hseen⟩ := opens_rows h hd
  exact ⟨(h.leaves hf).trans hcommitted, (h.fetchone hrow).trans (congrFun hseen key)⟩

theorem get_found {s : Contents String String} {keys : List String} {found : List (String × String)}
    (hnodup : (found.map Prod.fst).Nodup)
    (hfound : ∀ key value, (key, value) ∈ found ↔ key ∈ keys ∧ s key = some value) :
    (Dict.of keys (Dict.update [] found).get).get = asked s keys := by
  have hlookup (key : String) (hkey : key ∈ keys) : (Dict.update [] found).get key = s key := by
    rw [update_of_nodup (by simpa using hnodup), List.nil_append]
    refine Option.ext fun value => ?_
    rw [get_eq_some_iff hnodup, hfound]
    simp [hkey]
  rw [get_of]
  funext key
  rw [asked]
  split
  · rw [hlookup key ‹_›]
  · rfl

theorem rows_of_getMany (h : db.Documented rows committed seen) {keys : List String}
    {values : Dict String (Option String)} (hget : GetMany db f keys f' values) :
    rows f' = rows f ∧ values.get = asked (rows f) keys := by
  rw [GetMany] at hget
  split at hget
  · next hnil =>
      obtain ⟨rfl, rfl⟩ := hget
      subst hnil
      exact ⟨rfl, funext fun key => by simp [asked, Dict.get]⟩
  · obtain ⟨d, found, hd, hfetch, hf, rfl⟩ := hget
    obtain ⟨hcommitted, hseen⟩ := opens_rows h hd
    obtain ⟨hnodup, hfound⟩ := h.fetchall hfetch
    rw [hseen] at hfound
    exact ⟨(h.leaves hf).trans hcommitted, get_found hnodup hfound⟩

theorem rows_of_setMany (h : db.Documented rows committed seen) (hset : SetMany db f entries f') :
    rows f' = (rows f).putAll entries := by
  rw [SetMany] at hset
  split at hset
  · next hnil =>
      rw [hset, hnil]
      rfl
  · obtain ⟨stamp, d, d₁, d₂, hd, hupsert, hcommit, hf⟩ := hset
    rw [h.leaves hf, h.commit hcommit, (upserted_rows h hd hupsert).2]

/-- Nothing of a batch that is cut short is in the file, or all of it. -/
theorem rows_of_cut (h : db.Documented rows committed seen) (hcut : Cut db f entries f') :
    rows f' = rows f ∨ rows f' = (rows f).putAll entries := by
  cases hcut with
  | connecting => exact .inl rfl
  | connected hd hf => exact .inl ((h.leaves hf).trans (h.connect hd).1)
  | preparing hd hd₁ hf => exact .inl (((h.leaves hf).trans (h.execute hd₁).1).trans (h.connect hd).1)
  | prepared hd hf => exact .inl ((h.leaves hf).trans (opens_rows h hd).1)
  | upserted hd hd₁ hf => exact .inl ((h.leaves hf).trans (upserted_rows h hd hd₁).1)
  | committing hd hd₁ hf =>
      obtain ⟨hcommitted, hseen⟩ := upserted_rows h hd hd₁
      exact (h.tears hf).imp (·.trans hcommitted) (·.trans hseen)
  | committed hd hd₁ hd₂ hf =>
      exact .inr (((h.leaves hf).trans (h.commit hd₂)).trans (upserted_rows h hd hd₁).2)

theorem exists_setMany (h : db.Documented rows committed seen) (f : φ) (entries : List (String × String)) :
    ∃ f', SetMany db f entries f' := by
  by_cases hnil : entries = []
  · exact ⟨f, by rw [SetMany, if_pos hnil]⟩
  · obtain ⟨d, hd⟩ := exists_opens h f
    obtain ⟨d₁, hd₁⟩ := h.upserts d (stamped entries "")
    obtain ⟨d₂, hd₂⟩ := h.commits d₁
    obtain ⟨f', hf⟩ := h.closes d₂
    exact ⟨f', by rw [SetMany, if_neg hnil]; exact ⟨"", d, d₁, d₂, hd, hd₁, hd₂, hf⟩⟩

theorem sqliteStateStore_implements (h : db.Documented rows committed seen) :
    Implements (sqliteStateStore db) AllOrNone rows where
  fresh := h.absent
  total := by
    rintro f (key | keys | ⟨key, value⟩ | entries)
    · obtain ⟨d, hd⟩ := exists_opens h f
      obtain ⟨row, hrow⟩ := h.fetches d key
      obtain ⟨f', hf⟩ := h.closes d
      exact ⟨f', _, row, ⟨d, hd, hrow, hf⟩, rfl⟩
    · by_cases hnil : keys = []
      · exact ⟨f, _, [], by rw [GetMany, if_pos hnil]; exact ⟨rfl, rfl⟩, rfl⟩
      · obtain ⟨d, hd⟩ := exists_opens h f
        obtain ⟨found, hfound⟩ := h.fetchesAll d keys
        obtain ⟨f', hf⟩ := h.closes d
        refine ⟨f', _, Dict.of keys (Dict.update [] found).get, ?_, rfl⟩
        rw [GetMany, if_neg hnil]
        exact ⟨d, found, hd, hfound, hf, rfl⟩
    · obtain ⟨f', hf⟩ := exists_setMany h f [(key, value)]
      exact ⟨f', .done, hf, rfl⟩
    · obtain ⟨f', hf⟩ := exists_setMany h f entries
      exact ⟨f', .done, hf, rfl⟩
  serves := by
    rintro f (key | keys | ⟨key, value⟩ | entries) f' answer hserves
    · obtain ⟨row, hget, rfl⟩ := hserves
      obtain ⟨hrows, rfl⟩ := rows_of_get h hget
      exact congrArg (·, Answer.value (rows f key)) hrows
    · obtain ⟨values, hget, rfl⟩ := hserves
      obtain ⟨hrows, hvalues⟩ := rows_of_getMany h hget
      rw [hvalues]
      exact congrArg (·, Answer.values (asked (rows f) keys)) hrows
    · obtain ⟨hset, rfl⟩ := hserves
      exact congrArg (·, Answer.done) (rows_of_setMany h hset)
    · obtain ⟨hset, rfl⟩ := hserves
      exact congrArg (·, Answer.done) (rows_of_setMany h hset)
  breaks := by
    rintro f entries f' ⟨-, hcut⟩
    rcases rows_of_cut h hcut with hrows | hrows
    · exact ⟨[], .inl rfl, hrows⟩
    · exact ⟨entries, .inr rfl, hrows⟩

end Sqlite

/-- A store is the contract, whichever it is and whatever happens to it, and
without a batch cut short the three cannot be told apart. -/
theorem backends_agree (store : SingleKeys σ) {db : Aiosqlite φ δ} {rows : φ → Contents String String}
    {committed seen : δ → Contents String String} (hdb : db.Documented rows committed seen)
    {events₁ events₂ events₃ : List (Event String String)} {data : Dict String String} {x : σ} {file₀ file : φ}
    (h₁ : inMemoryStateStore.Runs [] events₁ data) (h₂ : (sequentialBatchMixin store).Runs store.fresh events₂ x)
    (habsent : db.absent file₀) (h₃ : (sqliteStateStore db).Runs file₀ events₃ file) :
    (contract AllOrNone).Runs Contents.nothing events₁ data.get ∧
      (contract Beginnings).Runs Contents.nothing events₂ (store.get x) ∧
      (contract AllOrNone).Runs Contents.nothing events₃ (rows file) ∧
      ∀ requests : List (Request String String), events₁.map Event.request = requests.map some →
        events₂.map Event.request = requests.map some → events₃.map Event.request = requests.map some →
        events₁ = events₂ ∧ events₂ = events₃ ∧ data.get = store.get x ∧ store.get x = rows file := by
  have hdata := inMemoryStateStore_implements.runs h₁
  have hstore := (sequentialBatchMixin_implements store).runs h₂
  have hfile := (sqliteStateStore_implements hdb).runs h₃
  have hfresh : store.get store.fresh = Contents.nothing := funext store.get_fresh
  rw [hfresh] at hstore
  rw [hdb.absent habsent] at hfile
  refine ⟨hdata, hstore, hfile, fun requests hr₁ hr₂ hr₃ => ?_⟩
  obtain ⟨h₁₂, hcontents⟩ := contract_unique hdata hstore hr₁ hr₂
  obtain ⟨h₂₃, hcontents'⟩ := contract_unique hstore hfile hr₂ hr₃
  exact ⟨h₁₂, h₂₃, hcontents, hcontents'⟩

def functionStore : SingleKeys (Contents String String) where
  fresh := Contents.nothing
  get s := s
  set s key value := s.put (key, value)
  get_fresh _ := rfl
  get_set _ _ _ := rfl

def twoBatches : List (Request String String) := [.setMany [("a", "1"), ("b", "2")], .set "a" "3", .getMany ["a", "c"]]

/-- The table `state`, with its primary key. -/
structure Table where
  rows : List Row
  primaryKey : (rows.map Row.key).Nodup

def upsertRows : List Row → Row → List Row
  | [], new => [new]
  | row :: rows, new => if row.key = new.key then new :: rows else row :: upsertRows rows new

theorem upsertRows_keys (rows : List Row) (new : Row) : (upsertRows rows new).map Row.key =
    if new.key ∈ rows.map Row.key then rows.map Row.key else rows.map Row.key ++ [new.key] := by
  induction rows with
  | nil => rfl
  | cons row rows ih =>
      rw [upsertRows, List.map_cons]
      by_cases h : row.key = new.key
      · simp [h]
      · rw [if_neg h, List.map_cons, ih]
        by_cases hmem : new.key ∈ rows.map Row.key
        · rw [if_pos hmem, if_pos (List.mem_cons_of_mem _ hmem)]
        · rw [if_neg hmem, if_neg (by rw [List.mem_cons, not_or]; exact ⟨Ne.symm h, hmem⟩), List.cons_append]

def Table.upsert (t : Table) (new : Row) : Table where
  rows := upsertRows t.rows new
  primaryKey := by
    rw [upsertRows_keys]
    split
    · exact t.primaryKey
    · next h => exact List.nodup_append.mpr ⟨t.primaryKey, List.nodup_singleton _, by simpa using h⟩

/-- `CREATE TABLE IF NOT EXISTS` -/
def orEmpty : Option Table → Table
  | none => ⟨[], List.nodup_nil⟩
  | some t => t

def held (file : Option Table) : Contents String String := Dict.get ((orEmpty file).rows.map Row.entry)

/-- The table of the last commit, and the table as the connection sees it. -/
structure Connection where
  committed : Option Table
  seen : Option Table

def tables : Aiosqlite (Option Table) Connection where
  absent file := file = none
  connect file d := d = ⟨file, file⟩
  execute
    | .journalModeWal, d, d' => d' = d
    | .schema, d, d' => d' = ⟨some (orEmpty d.committed), some (orEmpty d.seen)⟩
  fetchone d key found := found = held d.seen key
  fetchall d keys found := found.Perm (((orEmpty d.seen).rows.filter (·.key ∈ keys)).map Row.entry)
  executemany d rows d' := d' = ⟨d.committed, some (rows.foldl Table.upsert (orEmpty d.seen))⟩
  commit d d' := d' = ⟨d.seen, d.seen⟩
  leaves d file := file = d.committed
  tears d file := file = d.committed ∨ file = d.seen

theorem entry_upsertRows (rows : List Row) (new : Row) :
    (upsertRows rows new).map Row.entry = Dict.set (rows.map Row.entry) new.entry := by
  induction rows with
  | nil => rfl
  | cons row rows ih =>
      rw [upsertRows, List.map_cons, Dict.set]
      by_cases h : row.key = new.key
      · rw [if_pos h, if_pos (show row.entry.1 = new.entry.1 from h), List.map_cons]
      · rw [if_neg h, if_neg (show ¬ row.entry.1 = new.entry.1 from h), List.map_cons, ih]

theorem held_upserts (t : Table) (rows : List Row) :
    held (some (rows.foldl Table.upsert t)) = (held (some t)).putAll (rows.map Row.entry) := by
  induction rows generalizing t with
  | nil => rfl
  | cons row rows ih =>
      have hput : held (some (t.upsert row)) = (held (some t)).put row.entry :=
        (congrArg Dict.get (entry_upsertRows t.rows row)).trans (get_set _ _)
      rw [List.foldl_cons, ih, hput]
      rfl

theorem mem_selected {t : Table} {keys : List String} {key value : String} :
    (key, value) ∈ (t.rows.filter (·.key ∈ keys)).map Row.entry ↔ key ∈ keys ∧ held (some t) key = some value := by
  have hnodup : ((t.rows.map Row.entry).map Prod.fst).Nodup := by
    rw [List.map_map]
    exact t.primaryKey
  rw [held, orEmpty, get_eq_some_iff hnodup, List.mem_map, List.mem_map]
  constructor
  · rintro ⟨row, hrow, heq⟩
    obtain ⟨hmem, hkey⟩ := List.mem_filter.mp hrow
    obtain rfl : row.key = key := congrArg Prod.fst heq
    exact ⟨of_decide_eq_true hkey, row, hmem, heq⟩
  · rintro ⟨hkey, row, hmem, heq⟩
    obtain rfl : row.key = key := congrArg Prod.fst heq
    exact ⟨row, List.mem_filter.mpr ⟨hmem, decide_eq_true hkey⟩, heq⟩

theorem tables_documented : tables.Documented held (fun d => held d.committed) fun d => held d.seen where
  absent := by
    rintro file rfl
    rfl
  connect := by
    rintro file d rfl
    exact ⟨rfl, rfl⟩
  execute := by
    rintro (_ | _) d d' rfl <;> exact ⟨rfl, rfl⟩
  fetchone := id
  fetchall := by
    intro d keys found hfound
    refine ⟨?_, fun key value => hfound.mem_iff.trans mem_selected⟩
    rw [(hfound.map Prod.fst).nodup_iff, List.map_map]
    exact (orEmpty d.seen).primaryKey.sublist (List.filter_sublist.map _)
  executemany := by
    rintro d rows d' rfl
    exact ⟨rfl, held_upserts (orEmpty d.seen) rows⟩
  commit := by
    rintro d d' rfl
    rfl
  leaves := congrArg held
  tears := by
    rintro d file (rfl | rfl)
    · exact .inl rfl
    · exact .inr rfl
  connects _ := ⟨_, rfl⟩
  executes := by rintro (_ | _) d <;> exact ⟨_, rfl⟩
  fetches _ _ := ⟨_, rfl⟩
  fetchesAll _ _ := ⟨_, List.Perm.refl _⟩
  upserts _ _ := ⟨_, rfl⟩
  commits _ := ⟨_, rfl⟩
  closes _ := ⟨_, rfl⟩

theorem backends_agree_batches : ∃ events data s file, inMemoryStateStore.Runs [] events data ∧
    (sequentialBatchMixin functionStore).Runs Contents.nothing events s ∧
    (sqliteStateStore tables).Runs none events file ∧ data.get = s ∧ s = held file := by
  have hsqlite := sqliteStateStore_implements tables_documented
  obtain ⟨events₁, data, h₁, hr₁⟩ := inMemoryStateStore_implements.exists_runs [] twoBatches
  obtain ⟨events₂, s, h₂, hr₂⟩ := (sequentialBatchMixin_implements functionStore).exists_runs Contents.nothing twoBatches
  obtain ⟨events₃, file, h₃, hr₃⟩ := hsqlite.exists_runs none twoBatches
  obtain ⟨-, -, -, hagree⟩ := backends_agree functionStore tables_documented h₁ h₂ rfl h₃
  obtain ⟨rfl, rfl, hdata, hs⟩ := hagree twoBatches hr₁ hr₂ hr₃
  exact ⟨events₁, data, s, file, h₁, h₂, h₃, hdata, hs⟩

end PretradeRisk.Backends
