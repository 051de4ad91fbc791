import InferenceGateway.Library.Service
import InferenceGateway.Persistence.ApiKeys

/-!
# Creating and checking API keys

An admin creates a key and is shown its raw key once; the table keeps only the hash. A request
is let in with a raw key that hashes to a stored hash. So the keys that a request can use are
those that were handed out, as far as the hash tells raw keys apart.
-/
namespace InferenceGateway.Api
open Library Persistence

/-- `HTTPException`. -/
structure HttpException where
  statusCode : Nat
  detail : String
  headers : List (String × String) := []
  deriving DecidableEq, Repr

/-- A body that is not like this is refused before the handler runs. -/
structure ApiKeyCreateRequest where
  name : String
  tokenBudget : Int
  windowSeconds : Int := 60
  tokenBudget_pos : 0 < tokenBudget

/-- The admin key of the settings, and the hexadecimal SHA-256 digest of a byte string. -/
structure KeySettings where
  adminKey : String
  sha256 : ByteArray → String

variable (settings : KeySettings)

def KeySettings.keyHash (rawKey : String) : String := settings.sha256 rawKey.toUTF8

/-- `require_admin_key`, for the value of `X-Admin-Key`. -/
def requireAdminKey (header : Option String) : Except HttpException Unit :=
  if header ≠ some settings.adminKey then .error ⟨401, "invalid admin key", []⟩ else .ok ()

/-- `require_api_key`, for the value of `X-API-Key`. -/
def requireApiKey (table : List ApiKeyRow) (header : Option String) : Except HttpException ApiKey :=
  let rawKey := header.getD ""
  if rawKey = "" then .error ⟨401, "missing X-API-Key", []⟩
  else
    match ApiKeyRepo.getByHash table (settings.keyHash rawKey) with
    | none => .error ⟨401, "invalid API key", []⟩
    | some apiKey => .ok apiKey

/-- What happens to the keys of the gateway. `token` is what `secrets.token_urlsafe` draws. -/
inductive KeyCall where
  | createApiKey (adminKey : Option String) (body : ApiKeyCreateRequest) (token : String)
      (uuid4 : Uuid)
  | requireApiKey (header : Option String)
  /-- There is no endpoint for it: an operator writes to the table. -/
  | setEnabled (id : Uuid) (enabled : Bool)

inductive KeyReply where
  | created (id : Uuid) (rawKey : String)
  | authenticated (apiKey : ApiKey)
  | refused (e : HttpException)
  /-- The insert raises. -/
  | raised
  | done

/-- `POST /admin/keys`. -/
def createApiKey (table : List ApiKeyRow) (adminKey : Option String) (body : ApiKeyCreateRequest)
    (token : String) (uuid4 : Uuid) : KeyReply × List ApiKeyRow :=
  match requireAdminKey settings adminKey with
  | .error e => (.refused e, table)
  | .ok _ =>
    let rawKey := "sk-" ++ token
    match ApiKeyRepo.create table body.name (settings.keyHash rawKey) body.tokenBudget
        body.windowSeconds uuid4 with
    | none => (.raised, table)
    | some (table', created) => (.created created.apiKey.id rawKey, table')

def serveKeys (table : List ApiKeyRow) : KeyCall → KeyReply × List ApiKeyRow
  | .createApiKey adminKey body token uuid4 => createApiKey settings table adminKey body token uuid4
  | .requireApiKey header =>
    (match requireApiKey settings table header with
      | .ok apiKey => .authenticated apiKey
      | .error e => .refused e, table)
  | .setEnabled id enabled => (.done, ApiKeyRepo.setEnabled table id enabled)

/-- The keys of the gateway, from an empty table. -/
def keys : Service (List ApiKeyRow) KeyCall KeyReply := ⟨[], serveKeys settings⟩

abbrev KeyEvent := KeyCall × KeyReply

/-! ## The keys that have been handed out -/

/-- Whether the key is on after this event. -/
def switched (id : Uuid) (enabled : Bool) (e : KeyEvent) : Bool :=
  match e.1 with
  | .setEnabled id' enabled' => if id' = id then enabled' else enabled
  | _ => enabled

/-- Whether a key is on that was on before these events. -/
def enabledAfter (id : Uuid) (events : List KeyEvent) : Bool := events.foldl (switched id) true

theorem enabledAfter_concat (id : Uuid) (events : List KeyEvent) (e : KeyEvent) :
    enabledAfter id (events ++ [e]) = switched id (enabledAfter id events) e := by
  simp [enabledAfter]

/-- The row is that of a key which an admin has created, and which has been switched on and off
as it says. -/
def Issued (past : List KeyEvent) (row : ApiKeyRow) : Prop :=
  ∃ before body token after,
    past = before ++ (.createApiKey (some settings.adminKey) body token row.apiKey.id,
      .created row.apiKey.id ("sk-" ++ token)) :: after ∧
    row.apiKey.tokenBudget = body.tokenBudget ∧ row.apiKey.windowSeconds = body.windowSeconds ∧
    row.keyHash = settings.keyHash ("sk-" ++ token) ∧ row.name = body.name ∧
    row.enabled = enabledAfter row.apiKey.id after

/-- What an event does to a row that is there. -/
def rowAfter (row : ApiKeyRow) (e : KeyEvent) : ApiKeyRow :=
  { row with enabled := switched row.apiKey.id row.enabled e }

section Rows
variable {settings} {past : List KeyEvent} {row : ApiKeyRow} {e : KeyEvent}

/-- The keys after one more event: those before it, and the one that it has created. -/
theorem issued_concat : Issued settings (past ++ [e]) row ↔
    (∃ old, Issued settings past old ∧ row = rowAfter old e) ∨
    ∃ body token, e = (.createApiKey (some settings.adminKey) body token row.apiKey.id,
        .created row.apiKey.id ("sk-" ++ token)) ∧
      row.apiKey.tokenBudget = body.tokenBudget ∧ row.apiKey.windowSeconds = body.windowSeconds ∧
      row.keyHash = settings.keyHash ("sk-" ++ token) ∧ row.name = body.name ∧
      row.enabled = true := by
  constructor
  · rintro ⟨before, body, token, after, hpast, hbudget, hwindow, hhash, hname, henabled⟩
    obtain rfl | ⟨after, last, rfl⟩ := after.eq_nil_or_concat'
    · obtain ⟨-, heq⟩ := List.append_inj' hpast rfl
      exact .inr ⟨body, token, List.singleton_inj.mp heq, hbudget, hwindow, hhash, hname, henabled⟩
    · rw [← List.cons_append, ← List.append_assoc] at hpast
      obtain ⟨rfl, heq⟩ := List.append_inj' hpast rfl
      obtain rfl := List.singleton_inj.mp heq
      rw [enabledAfter_concat] at henabled
      refine .inl ⟨{ row with enabled := enabledAfter row.apiKey.id after },
        ⟨before, body, token, after, rfl, hbudget, hwindow, hhash, hname, rfl⟩, ?_⟩
      rw [rowAfter, ← henabled]
  · rintro (⟨old, ⟨before, body, token, after, rfl, hbudget, hwindow, hhash, hname, henabled⟩,
      rfl⟩ | ⟨body, token, rfl, hbudget, hwindow, hhash, hname, henabled⟩)
    · refine ⟨before, body, token, after ++ [e], by simp [rowAfter], hbudget, hwindow, hhash, hname,
        ?_⟩
      rw [enabledAfter_concat, rowAfter, henabled]
    · exact ⟨past, body, token, [], rfl, hbudget, hwindow, hhash, hname, henabled⟩

omit settings in
theorem eq_of_columns {row row' : ApiKeyRow} (hid : row.apiKey.id = row'.apiKey.id)
    (hbudget : row.apiKey.tokenBudget = row'.apiKey.tokenBudget)
    (hwindow : row.apiKey.windowSeconds = row'.apiKey.windowSeconds)
    (hhash : row.keyHash = row'.keyHash) (hname : row.name = row'.name)
    (henabled : row.enabled = row'.enabled) : row = row' := by
  obtain ⟨⟨id, tokenBudget, windowSeconds, _, _, _, _⟩, keyHash, name, enabled⟩ := row
  obtain ⟨⟨id', tokenBudget', windowSeconds', _, _, _, _⟩, keyHash', name', enabled'⟩ := row'
  simp only at hid hbudget hwindow hhash hname henabled
  subst hid hbudget hwindow hhash hname henabled
  rfl

/-- The table holds the keys that have been handed out, each under a hash of its own. -/
structure KeyBook (settings : KeySettings) (past : List KeyEvent) (table : List ApiKeyRow) :
    Prop where
  mem_iff : ∀ row, row ∈ table ↔ Issued settings past row
  unique : (table.map ApiKeyRow.keyHash).Nodup

/-- An event that creates nothing does to each row what it does. -/
theorem KeyBook.of_rowAfter {table table' : List ApiKeyRow} (h : KeyBook settings past table)
    (htable : table' = table.map fun row => rowAfter row e)
    (hquiet : ∀ id rawKey, e.2 ≠ .created id rawKey) : KeyBook settings (past ++ [e]) table' := by
  subst htable
  refine ⟨fun row => ?_, ?_⟩
  · rw [issued_concat, List.mem_map]
    constructor
    · rintro ⟨old, hold, rfl⟩
      exact .inl ⟨old, (h.mem_iff old).mp hold, rfl⟩
    · rintro (⟨old, hold, rfl⟩ | ⟨body, token, rfl, -⟩)
      · exact ⟨old, (h.mem_iff old).mpr hold, rfl⟩
      · exact absurd rfl (hquiet _ _)
  · have hhashes : (table.map fun row => rowAfter row e).map ApiKeyRow.keyHash =
        table.map ApiKeyRow.keyHash := by
      rw [List.map_map]
      rfl
    exact hhashes ▸ h.unique

theorem map_rowAfter_of_ne {table : List ApiKeyRow}
    (hquiet : ∀ id enabled, e.1 ≠ .setEnabled id enabled) :
    (table.map fun row => rowAfter row e) = table := by
  have hsame : ∀ row : ApiKeyRow, rowAfter row e = row := fun row => by
    obtain ⟨c, r⟩ := e
    cases c with
    | setEnabled id enabled => exact absurd rfl (hquiet id enabled)
    | _ => rfl
  simp [hsame]

/-- One call keeps the book. -/
theorem KeyBook.serve {table : List ApiKeyRow} (h : KeyBook settings past table) (c : KeyCall) :
    KeyBook settings (past ++ [(c, (serveKeys settings table c).1)])
      (serveKeys settings table c).2 := by
  cases c with
  | requireApiKey header =>
    refine h.of_rowAfter (map_rowAfter_of_ne (by simp)).symm fun id rawKey => ?_
    simp only [serveKeys]
    cases requireApiKey settings table header <;> simp
  | setEnabled id enabled =>
    refine h.of_rowAfter ?_ (by simp [serveKeys])
    refine List.map_congr_left fun row _ => ?_
    simp only [rowAfter, switched, @eq_comm _ id]
    split <;> rfl
  | createApiKey adminKey body token uuid4 =>
    by_cases hadmin : adminKey = some settings.adminKey
    · have hallowed : requireAdminKey settings adminKey = .ok () := if_neg (not_not.mpr hadmin)
      cases hcreate : ApiKeyRepo.create table body.name (settings.keyHash ("sk-" ++ token))
          body.tokenBudget body.windowSeconds uuid4 with
      | none =>
        have hserve : serveKeys settings table (.createApiKey adminKey body token uuid4) =
            (.raised, table) := by
          simp [serveKeys, createApiKey, hallowed, hcreate]
        rw [hserve]
        exact h.of_rowAfter (map_rowAfter_of_ne (by simp)).symm (by simp)
      | some new =>
        obtain ⟨table', created⟩ := new
        obtain ⟨rfl, hnew, -, hid, hbudget, hwindow, hhash, hname, henabled⟩ :=
          ApiKeyRepo.create_cases hcreate
        have hserve : serveKeys settings table (.createApiKey adminKey body token uuid4) =
            (.created created.apiKey.id ("sk-" ++ token), table ++ [created]) := by
          simp [serveKeys, createApiKey, hallowed, hcreate]
        rw [hserve]
        obtain ⟨mem_iff, unique⟩ := h
        refine ⟨fun row => ?_, ?_⟩
        · rw [List.mem_append, List.mem_singleton, issued_concat]
          refine or_congr ?_ ?_
          · rw [mem_iff]
            refine ⟨fun hold => ⟨row, hold, rfl⟩, ?_⟩
            rintro ⟨old, hold, rfl⟩
            exact hold
          · constructor
            · rintro rfl
              exact ⟨body, token, by rw [hadmin, hid], hbudget, hwindow, hhash, hname, henabled⟩
            · rintro ⟨body', token', heq, hbudget', hwindow', hhash', hname', henabled'⟩
              obtain ⟨hcall, hreply⟩ := Prod.mk.inj heq
              obtain ⟨-, rfl, rfl, -⟩ := KeyCall.createApiKey.inj hcall
              exact eq_of_columns (KeyReply.created.inj hreply).1.symm (hbudget'.trans hbudget.symm)
                (hwindow'.trans hwindow.symm) (hhash'.trans hhash.symm) (hname'.trans hname.symm)
                (henabled'.trans henabled.symm)
        · rw [List.map_append, List.nodup_append]
          refine ⟨unique, List.nodup_singleton _, ?_⟩
          rintro hash hold _ hlast rfl
          rw [List.map_singleton, List.mem_singleton, hhash] at hlast
          exact hnew (hlast ▸ hold)
    · have hrefused : requireAdminKey settings adminKey =
          .error ⟨401, "invalid admin key", []⟩ := if_pos hadmin
      have hserve : serveKeys settings table (.createApiKey adminKey body token uuid4) =
          (.refused ⟨401, "invalid admin key", []⟩, table) := by
        simp [serveKeys, createApiKey, hrefused]
      rw [hserve]
      exact h.of_rowAfter (map_rowAfter_of_ne (by simp)).symm (by simp)

end Rows

theorem keyBook (calls : List KeyCall) :
    KeyBook settings ((keys settings).history calls) ((keys settings).state calls) :=
  (keys settings).invariant (KeyBook settings)
    ⟨fun row => by simp [keys, Issued], List.nodup_nil⟩
    (fun _ _ c h => h.serve c) calls

theorem requireApiKey_eq_ok_iff {table : List ApiKeyRow} {header : Option String}
    {apiKey : ApiKey} : requireApiKey settings table header = .ok apiKey ↔
      ∃ rawKey, header = some rawKey ∧ rawKey ≠ "" ∧
        ApiKeyRepo.getByHash table (settings.keyHash rawKey) = some apiKey := by
  cases header with
  | none => simp [requireApiKey]
  | some rawKey =>
    by_cases hempty : rawKey = ""
    · simp [requireApiKey, hempty]
    · cases hfind : ApiKeyRepo.getByHash table (settings.keyHash rawKey) <;>
        simp [requireApiKey, hempty, hfind]

/-- After every sequence of calls a header is let in, as a key, exactly when it is not empty and
hashes to what a raw key hashes to that was handed out for this key, to somebody with the admin
key, and the key has not been switched off since, or has been switched on again. -/
theorem authenticated_iff (calls : List KeyCall) (header : Option String) (apiKey : ApiKey) :
    requireApiKey settings ((keys settings).state calls) header = .ok apiKey ↔
      ∃ rawKey row, header = some rawKey ∧ rawKey ≠ "" ∧
        Issued settings ((keys settings).history calls) row ∧
        row.keyHash = settings.keyHash rawKey ∧ row.enabled = true ∧ row.apiKey = apiKey := by
  have hbook := keyBook settings calls
  rw [requireApiKey_eq_ok_iff]
  constructor
  · rintro ⟨rawKey, rfl, hempty, hfind⟩
    obtain ⟨row, hrow, hhash, henabled, hkey⟩ :=
      (ApiKeyRepo.getByHash_eq_some_iff hbook.unique).mp hfind
    exact ⟨rawKey, row, rfl, hempty, (hbook.mem_iff row).mp hrow, hhash, henabled, hkey⟩
  · rintro ⟨rawKey, row, rfl, hempty, hissued, hhash, henabled, hkey⟩
    exact ⟨rawKey, rfl, hempty, (ApiKeyRepo.getByHash_eq_some_iff hbook.unique).mpr
      ⟨row, (hbook.mem_iff row).mpr hissued, hhash, henabled, hkey⟩⟩

end InferenceGateway.Api
