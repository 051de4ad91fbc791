import InferenceGateway.Library.Schedule
import InferenceGateway.Persistence.Repositories
import Mathlib.Algebra.Order.BigOperators.Group.List
import Mathlib.Algebra.Order.Ring.Nat

/-!
# Concurrent upserts

Each request upserts in a session of its own: it reads the row, assigns its fields, flushes
and commits. A read sees committed rows only. A flush that writes takes a lock until the
session ends: of the row, or of the name if the row is new. All requests here are about one
name, so there is one lock. An UPDATE sets only those columns of the row that differ from
what the session has loaded, in whatever row is committed by then. Costs are compared as the
double that is posted and the decimal that was loaded.
-/
namespace InferenceGateway.Persistence
open Library

structure IntegrityError where
  deriving DecidableEq, Repr

inductive DbOp where
  | select (name : String)
  | flush (session : Nat) (existing : Option Backend) (body : BackendUpsert)
  | commit (session : Nat)

abbrev DbReply : DbOp → Type
  | .select _ => Option Backend
  | .flush .. => Except IntegrityError Backend
  | .commit _ => Unit

abbrev DbAction := Program DbOp DbReply (Except IntegrityError Backend)

/-- The session after its flush. A flush that raises rolls it back. -/
def flushed (session : Nat) : Except IntegrityError Backend → DbAction
  | .error e => .pure (.error e)
  | .ok row => .perform (.commit session) fun _ => .pure (.ok row)

/-- `BackendRepo.upsert` in a session that commits. -/
def upsertSession (session : Nat) (body : BackendUpsert) : DbAction :=
  .perform (.select body.name) fun existing =>
    .perform (.flush session existing body) (flushed session)

/-- What an UPDATE leaves in a column that was loaded and then assigned. A column may round. -/
def updateColumn {α : Type} [DecidableEq α] (column : α → α) (loaded assigned stored : α) : α :=
  if assigned = loaded then stored else column assigned

namespace BackendRepo

/-- The committed row after the UPDATE of a session that has loaded it as it was before. -/
def update (existing : Backend) (body : BackendUpsert) (row : Backend) : Backend :=
  { row with
    type := updateColumn id existing.type body.type row.type
    endpoint := updateColumn id existing.endpoint body.endpoint row.endpoint
    model := updateColumn id existing.model body.model row.model
    priority := updateColumn id existing.priority body.priority row.priority
    costPer1kIn :=
      updateColumn numeric existing.costPer1kIn (double body.costPer1kIn) row.costPer1kIn
    costPer1kOut :=
      updateColumn numeric existing.costPer1kOut (double body.costPer1kOut) row.costPer1kOut }

theorem inColumns_update {existing row : Backend} {body : BackendUpsert} (h : InColumns row) :
    InColumns (update existing body row) := by
  have hcolumn : ∀ loaded assigned stored : ℚ, numeric stored = stored →
      numeric (updateColumn numeric loaded assigned stored) =
        updateColumn numeric loaded assigned stored := fun loaded assigned stored hstored => by
    unfold updateColumn
    split
    · exact hstored
    · exact decimal_decimal 6 _
  exact ⟨hcolumn _ _ _ h.costPer1kIn, hcolumn _ _ _ h.costPer1kOut⟩

end BackendRepo

/-- The committed rows, and the session that holds the lock with the rows as it sees them. -/
structure Database where
  table : List Backend
  uncommitted : Option (Nat × List Backend) := none

namespace Database

variable (db : Database)

/-- How the database answers. A flush that writes has no answer while another session holds
the lock. -/
def Answers : (op : DbOp) → DbReply op → Database → Prop
  | .select name, reply, db' =>
    reply = db.table.find? (fun row => row.name = name) ∧ db' = db
  | .flush session (some existing) body, reply, db' =>
    reply = .ok (BackendRepo.posted existing body) ∧
    if BackendRepo.posted existing body = existing then db' = db
    else db.uncommitted = none ∧
      db' = { db with uncommitted := some (session, db.table.map fun row =>
        if row.id = existing.id then BackendRepo.update existing body row else row) }
  | .flush session none body, reply, db' =>
    db.uncommitted = none ∧
    if ∃ row ∈ db.table, row.name = body.name then reply = .error ⟨⟩ ∧ db' = db
    else ∃ uuid4, (∀ row ∈ db.table, row.id ≠ uuid4) ∧
      reply = .ok (BackendRepo.upsert db.table body uuid4).2 ∧
      db' = { db with
        uncommitted := some (session, (BackendRepo.upsert db.table body uuid4).1) }
  | .commit session, _, db' =>
    match db.uncommitted with
    | some (holder, rows) => db' = if holder = session then ⟨rows, none⟩ else db
    | none => db' = db

end Database

/-- A table under its `PRIMARY KEY` and `UNIQUE` constraints and its column types. -/
structure BackendTable where
  rows : List Backend
  ids : (rows.map Backend.id).Nodup
  names : (rows.map Backend.name).Nodup
  costs : ∀ row ∈ rows, BackendRepo.InColumns row

/-- Sessions that upsert rows of one name. -/
def sessions (initial : BackendTable) (bodies : Nat → BackendUpsert) (name : String) :
    Pool.System Nat Database DbOp DbReply (Except IntegrityError Backend) where
  initial := ⟨initial.rows, none⟩
  starts session p := (bodies session).name = name ∧ p = upsertSession session (bodies session)
  handle := Database.Answers
  drift _ _ := False

abbrev SessionPool := Pool Nat Database DbOp DbReply (Except IntegrityError Backend)

/-! ## When a flush writes one payload -/

/-- If the assignment leaves the column as it was loaded, it is still stored so. -/
def ColumnKept {α : Type} (loaded assigned stored : α) : Prop := assigned = loaded → stored = loaded

/-- Every column that the UPDATE leaves out is still stored as it was loaded. -/
structure Intact (existing : Backend) (body : BackendUpsert) (row : Backend) : Prop where
  type : ColumnKept existing.type body.type row.type
  endpoint : ColumnKept existing.endpoint body.endpoint row.endpoint
  model : ColumnKept existing.model body.model row.model
  priority : ColumnKept existing.priority body.priority row.priority
  costPer1kIn : ColumnKept existing.costPer1kIn (double body.costPer1kIn) row.costPer1kIn
  costPer1kOut : ColumnKept existing.costPer1kOut (double body.costPer1kOut) row.costPer1kOut

/-- A session that has found no row flushes while there is none, and a session that changes
the row it has found flushes while the columns that it does not set are as it has found them. -/
def Serial (w : SessionPool) (_ : Nat) : DbOp → Prop
  | .flush _ none body => ∀ row ∈ w.state.table, row.name ≠ body.name
  | .flush _ (some existing) body => BackendRepo.posted existing body = existing ∨
      ∀ row ∈ w.state.table, row.name = body.name → Intact existing body row
  | _ => True

theorem updateColumn_eq {α : Type} [DecidableEq α] {column : α → α} {loaded assigned stored : α}
    (hcolumn : column loaded = loaded) (h : ColumnKept loaded assigned stored) :
    updateColumn column loaded assigned stored = column assigned := by
  unfold updateColumn
  split
  · rename_i heq
    rw [h heq, heq, hcolumn]
  · rfl

/-- Then the row has all columns of the payload. -/
theorem Intact.update_eq {existing : Backend} {body : BackendUpsert} {row : Backend}
    (h : Intact existing body row) (hcosts : BackendRepo.InColumns existing) :
    BackendRepo.update existing body row = BackendRepo.assign row body := by
  rw [BackendRepo.update, updateColumn_eq rfl h.type, updateColumn_eq rfl h.endpoint,
    updateColumn_eq rfl h.model, updateColumn_eq rfl h.priority,
    updateColumn_eq hcosts.costPer1kIn h.costPer1kIn,
    updateColumn_eq hcosts.costPer1kOut h.costPer1kOut]
  rfl

/-! ## What every step keeps -/

section Steps
variable {bodies : Nat → BackendUpsert} {name : String}

/-- The row of the name has all columns of one of these requests. -/
def FromOne (bodies : Nat → BackendUpsert) (name : String) (tags : List Nat)
    (table : List Backend) : Prop :=
  ∃ row ∈ table, row.name = name ∧ ∃ tag ∈ tags, BackendRepo.assign row (bodies tag) = row

/-- The constraints of the table. -/
structure Keyed (table : List Backend) : Prop where
  ids : (table.map Backend.id).Nodup
  names : (table.map Backend.name).Nodup
  costs : ∀ row ∈ table, BackendRepo.InColumns row

/-- The row that a session has loaded is still there, and is changed only by a commit. -/
structure Loaded (bodies : Nat → BackendUpsert) (name : String) (tags : List Nat)
    (table : List Backend) (existing : Backend) : Prop where
  named : existing.name = name
  costs : BackendRepo.InColumns existing
  stored : ∃ row ∈ table, row.name = name ∧ row.id = existing.id
  current : FromOne bodies name tags table ∨ existing ∈ table

/-- Where a session can be. -/
inductive Stage (bodies : Nat → BackendUpsert) (name : String) (tags : List Nat) (db : Database)
    (tag : Nat) : DbAction → Prop
  | starting (hname : (bodies tag).name = name) :
      Stage bodies name tags db tag (upsertSession tag (bodies tag))
  | loaded (existing : Option Backend) (hname : (bodies tag).name = name)
      (hloaded : ∀ row, existing = some row → Loaded bodies name tags db.table row) :
      Stage bodies name tags db tag (.perform (.flush tag existing (bodies tag)) (flushed tag))
  | committing (row : Backend)
      (hfrom : (∀ rows, db.uncommitted ≠ some (tag, rows)) → FromOne bodies name tags db.table) :
      Stage bodies name tags db tag (.perform (.commit tag) fun _ => .pure (.ok row))
  | done (row : Backend) (hfrom : FromOne bodies name tags db.table) :
      Stage bodies name tags db tag (.pure (.ok row))

/-- What holds of the rows that the holder of the lock sees. -/
structure Writes (bodies : Nat → BackendUpsert) (name : String) (tags : List Nat)
    (table rows : List Backend) : Prop where
  keyed : Keyed rows
  fromOne : FromOne bodies name tags rows
  kept : ∀ row ∈ table, ∃ row' ∈ rows, row'.name = row.name ∧ row'.id = row.id

structure Serialised (bodies : Nat → BackendUpsert) (name : String) (db : Database)
    (tasks : List (Nat × DbAction)) : Prop where
  keyed : Keyed db.table
  stages : ∀ task ∈ tasks, Stage bodies name (tasks.map Prod.fst) db task.1 task.2
  holder : ∀ holder rows, db.uncommitted = some (holder, rows) →
    Writes bodies name (tasks.map Prod.fst) db.table rows ∧
    ∃ row, (holder, .perform (.commit holder) fun _ => .pure (.ok row)) ∈ tasks

theorem FromOne.mono {tags tags' : List Nat} {table : List Backend}
    (h : FromOne bodies name tags table) (hsub : tags ⊆ tags') :
    FromOne bodies name tags' table :=
  have ⟨row, hrow, hname, tag, htag, hassign⟩ := h
  ⟨row, hrow, hname, tag, hsub htag, hassign⟩

theorem Stage.mono {tags tags' : List Nat} {db : Database} {tag : Nat} {p : DbAction}
    (h : Stage bodies name tags db tag p) (hsub : tags ⊆ tags') :
    Stage bodies name tags' db tag p := by
  cases h with
  | starting hname => exact .starting hname
  | loaded existing hname hloaded =>
    refine .loaded existing hname fun row hrow => ?_
    obtain ⟨hname, hcosts, hstored, hcurrent⟩ := hloaded row hrow
    exact ⟨hname, hcosts, hstored, hcurrent.imp_left (·.mono hsub)⟩
  | committing row hfrom => exact .committing row fun hfree => (hfrom hfree).mono hsub
  | done row hfrom => exact .done row (hfrom.mono hsub)

/-- Taking the lock changes nothing for the other sessions. -/
theorem Stage.of_lock {tags : List Nat} {db : Database} {tag holder : Nat} {rows : List Backend}
    {p : DbAction} (h : Stage bodies name tags db tag p) (hfree : db.uncommitted = none) :
    Stage bodies name tags { db with uncommitted := some (holder, rows) } tag p := by
  cases h with
  | starting hname => exact .starting hname
  | loaded existing hname hloaded => exact .loaded existing hname hloaded
  | committing row hfrom => exact .committing row fun _ => hfrom fun rows => by simp [hfree]
  | done row hfrom => exact .done row hfrom

/-- A commit of written rows leaves the row of the name with the columns of one request. -/
theorem Stage.of_commit {tags : List Nat} {db : Database} {tag : Nat} {rows : List Backend}
    {p : DbAction} (h : Stage bodies name tags db tag p)
    (hwrites : Writes bodies name tags db.table rows) :
    Stage bodies name tags ⟨rows, none⟩ tag p := by
  cases h with
  | starting hname => exact .starting hname
  | loaded existing hname hloaded =>
    refine .loaded existing hname fun row hrow => ?_
    obtain ⟨hname, hcosts, ⟨stored, hstored, hstoredName, hid⟩, -⟩ := hloaded row hrow
    obtain ⟨stored', hstored', hname', hid'⟩ := hwrites.kept stored hstored
    exact ⟨hname, hcosts, ⟨stored', hstored', hname'.trans hstoredName, hid'.trans hid⟩,
      .inl hwrites.fromOne⟩
  | committing row hfrom => exact .committing row fun _ => hwrites.fromOne
  | done row hfrom => exact .done row hwrites.fromOne

/-! ## One step -/

variable {db db' : Database} {tag : Nat} {p p' : DbAction} {before after : List (Nat × DbAction)}
  {tags : List Nat}

/-- The session at this place goes on. -/
theorem Serialised.next (h : Serialised bodies name db (before ++ (tag, p) :: after))
    (hnodup : ((before ++ (tag, p) :: after).map Prod.fst).Nodup) (hkeyed : Keyed db'.table)
    (hself : Stage bodies name ((before ++ (tag, p) :: after).map Prod.fst) db' tag p')
    (hothers : ∀ tag' q, tag' ≠ tag →
      Stage bodies name ((before ++ (tag, p) :: after).map Prod.fst) db tag' q →
      Stage bodies name ((before ++ (tag, p) :: after).map Prod.fst) db' tag' q)
    (hholder : ∀ holder rows, db'.uncommitted = some (holder, rows) →
      Writes bodies name ((before ++ (tag, p) :: after).map Prod.fst) db'.table rows ∧
      ∃ row, (holder, .perform (.commit holder) fun _ => .pure (.ok row)) ∈
        before ++ (tag, p') :: after) :
    Serialised bodies name db' (before ++ (tag, p') :: after) := by
  have htags : (before ++ (tag, p') :: after).map Prod.fst =
      (before ++ (tag, p) :: after).map Prod.fst := by simp
  refine ⟨hkeyed, fun task htask => ?_, by rwa [htags]⟩
  rw [htags]
  have hother : ∀ task ∈ before ++ after, Stage bodies name
      ((before ++ (tag, p) :: after).map Prod.fst) db' task.1 task.2 := fun task htask => by
    refine hothers task.1 task.2 ?_ (h.stages task ?_)
    · intro heq
      rw [List.map_append, List.map_cons] at hnodup
      have hmem : task.1 ∈ (before ++ after).map Prod.fst := List.mem_map_of_mem htask
      rw [heq, List.map_append] at hmem
      exact (List.nodup_cons.mp (List.nodup_middle.mp hnodup)).1 hmem
    · obtain hbefore | hafter := List.mem_append.mp htask
      · exact List.mem_append_left _ hbefore
      · exact List.mem_append_right _ (List.mem_cons_of_mem _ hafter)
  rw [List.mem_append, List.mem_cons] at htask
  obtain hbefore | rfl | hafter := htask
  · exact hother task (List.mem_append_left _ hbefore)
  · exact hself
  · exact hother task (List.mem_append_right _ hafter)

/-- A session that does not hold the lock leaves the database alone. -/
theorem Serialised.idle (h : Serialised bodies name db (before ++ (tag, p) :: after))
    (hnodup : ((before ++ (tag, p) :: after).map Prod.fst).Nodup)
    (hfree : ∀ rows, db.uncommitted ≠ some (tag, rows))
    (hself : Stage bodies name ((before ++ (tag, p) :: after).map Prod.fst) db tag p') :
    Serialised bodies name db (before ++ (tag, p') :: after) := by
  refine h.next hnodup h.keyed hself (fun _ _ _ hstage => hstage) fun holder rows hlock => ?_
  obtain ⟨hwrites, row, hrow⟩ := h.holder holder rows hlock
  refine ⟨hwrites, row, ?_⟩
  rw [List.mem_append, List.mem_cons] at hrow ⊢
  obtain hbefore | hself | hafter := hrow
  · exact .inl hbefore
  · exact absurd ((Prod.mk.inj hself).1 ▸ hlock) (hfree rows)
  · exact .inr (.inr hafter)

/-- A session that takes the lock and goes on to its commit. -/
theorem Serialised.lock (h : Serialised bodies name db (before ++ (tag, p) :: after))
    (hnodup : ((before ++ (tag, p) :: after).map Prod.fst).Nodup)
    (hfree : db.uncommitted = none) {rows : List Backend}
    (hwrites : Writes bodies name ((before ++ (tag, p) :: after).map Prod.fst) db.table rows)
    (row : Backend) :
    Serialised bodies name { db with uncommitted := some (tag, rows) }
      (before ++ (tag, flushed tag (.ok row)) :: after) := by
  refine h.next hnodup h.keyed (.committing row fun hno => absurd rfl (hno rows))
    (fun _ _ _ hstage => hstage.of_lock hfree) fun holder rows' hlock => ?_
  obtain ⟨rfl, rfl⟩ := Prod.mk.inj (Option.some.inj hlock)
  exact ⟨hwrites, row, List.mem_append_right _ List.mem_cons_self⟩

/-- The holder of the lock commits. -/
theorem Serialised.commit (h : Serialised bodies name db (before ++ (tag, p) :: after))
    (hnodup : ((before ++ (tag, p) :: after).map Prod.fst).Nodup) {rows : List Backend}
    (hlock : db.uncommitted = some (tag, rows)) (row : Backend) :
    Serialised bodies name ⟨rows, none⟩ (before ++ (tag, .pure (.ok row)) :: after) := by
  obtain ⟨hwrites, -⟩ := h.holder tag rows hlock
  exact h.next hnodup hwrites.keyed (.done row hwrites.fromOne)
    (fun _ _ _ hstage => hstage.of_commit hwrites) fun _ _ => nofun

/-! ## What a flush writes -/

/-- The columns that a request assigns, of any row. -/
theorem assign_assign (row : Backend) (body : BackendUpsert) :
    BackendRepo.assign (BackendRepo.assign row body) body = BackendRepo.assign row body := rfl

theorem writes_insert (hkeyed : Keyed db.table) (hname : (bodies tag).name = name)
    (hnone : ∀ row ∈ db.table, row.name ≠ (bodies tag).name) {uuid4 : Uuid}
    (hfresh : ∀ row ∈ db.table, row.id ≠ uuid4) (htag : tag ∈ tags) :
    Writes bodies name tags db.table (BackendRepo.upsert db.table (bodies tag) uuid4).1 := by
  have hfind : db.table.find? (fun row => row.name = (bodies tag).name) = none := by
    simpa using hnone
  have hrow : (BackendRepo.upserted db.table (bodies tag) uuid4).id = uuid4 := by
    simp [BackendRepo.upserted, BackendRepo.upsert, hfind, BackendRepo.posted, BackendRepo.assign]
  have htable : (BackendRepo.upsert db.table (bodies tag) uuid4).1 =
      db.table ++ [BackendRepo.upserted db.table (bodies tag) uuid4] := by
    simp [BackendRepo.upserted, BackendRepo.upsert, hfind, BackendRepo.posted, BackendRepo.assign]
  obtain ⟨hnamed, hassigned⟩ :
      (BackendRepo.upserted db.table (bodies tag) uuid4).name = (bodies tag).name ∧ _ :=
    BackendRepo.upserted_assigned
  refine ⟨⟨?_, ?_, ?_⟩, ⟨_, BackendRepo.upserted_mem, hnamed.trans hname, tag, htag, hassigned⟩,
    fun row hmem => ⟨row, ?_, rfl, rfl⟩⟩
  · rw [htable, List.map_append, List.map_singleton, hrow]
    refine hkeyed.ids.append (List.nodup_singleton _) (List.disjoint_singleton.mpr fun hmem => ?_)
    obtain ⟨row, hrow, hid⟩ := List.mem_map.mp hmem
    exact hfresh row hrow hid
  · rw [htable, List.map_append, List.map_singleton, hnamed]
    refine hkeyed.names.append (List.nodup_singleton _) (List.disjoint_singleton.mpr fun hmem => ?_)
    obtain ⟨row, hrow, hrowName⟩ := List.mem_map.mp hmem
    exact hnone row hrow hrowName
  · rw [htable]
    refine List.forall_mem_append.mpr ⟨hkeyed.costs, List.forall_mem_singleton.mpr ?_⟩
    exact BackendRepo.inColumns_assign _ _
  · rw [htable]
    exact List.mem_append_left _ hmem

theorem writes_update (hkeyed : Keyed db.table) {existing : Backend}
    (hloaded : Loaded bodies name tags db.table existing)
    (hintact : ∀ row ∈ db.table, row.name = name → Intact existing (bodies tag) row)
    (htag : tag ∈ tags) :
    Writes bodies name tags db.table (db.table.map fun row =>
      if row.id = existing.id then BackendRepo.update existing (bodies tag) row else row) := by
  have hsame : ∀ row, (if row.id = existing.id then BackendRepo.update existing (bodies tag) row
      else row).name = row.name ∧ (if row.id = existing.id then
      BackendRepo.update existing (bodies tag) row else row).id = row.id := fun row => by
    split <;> exact ⟨rfl, rfl⟩
  obtain ⟨stored, hstored, hname, hid⟩ := hloaded.stored
  refine ⟨⟨?_, ?_, ?_⟩,
    ⟨_, List.mem_map_of_mem hstored, (hsame stored).1.trans hname, tag, htag, ?_⟩,
    fun row hrow => ⟨_, List.mem_map_of_mem hrow, hsame row⟩⟩
  · rw [List.map_map]
    exact (List.map_congr_left fun row _ => (hsame row).2) ▸ hkeyed.ids
  · rw [List.map_map]
    exact (List.map_congr_left fun row _ => (hsame row).1) ▸ hkeyed.names
  · refine List.forall_mem_map.mpr fun row hrow => ?_
    split
    · exact BackendRepo.inColumns_update (hkeyed.costs row hrow)
    · exact hkeyed.costs row hrow
  · rw [if_pos hid, (hintact stored hstored hname).update_eq hloaded.costs, assign_assign]

/-- Only the session that is about to commit can hold the lock. -/
theorem Serialised.not_holder (h : Serialised bodies name db (before ++ (tag, p) :: after))
    (hnodup : ((before ++ (tag, p) :: after).map Prod.fst).Nodup)
    (hp : ∀ row, p ≠ .perform (.commit tag) fun _ => .pure (.ok row)) (rows : List Backend) :
    db.uncommitted ≠ some (tag, rows) := fun hlock => by
  obtain ⟨-, row, hrow⟩ := h.holder tag rows hlock
  have hself : (tag, p) ∈ before ++ (tag, p) :: after :=
    List.mem_append_right _ List.mem_cons_self
  exact hp row (Prod.mk.inj (List.inj_on_of_nodup_map hnodup hself hrow rfl)).2

theorem Serialised.flush {existing : Option Backend} {r : Except IntegrityError Backend}
    (h : Serialised bodies name db
      (before ++ (tag, .perform (.flush tag existing (bodies tag)) (flushed tag)) :: after))
    (hnodup : ((before ++ (tag, .perform (.flush tag existing (bodies tag)) (flushed tag)) ::
      after).map Prod.fst).Nodup)
    (hname : (bodies tag).name = name)
    (hloaded : ∀ row, existing = some row →
      Loaded bodies name ((before ++ (tag, .perform (.flush tag existing (bodies tag))
        (flushed tag)) :: after).map Prod.fst) db.table row)
    {w : SessionPool} (hw : w.state = db)
    (hserial : Serial w tag (.flush tag existing (bodies tag)))
    (hanswers : db.Answers (.flush tag existing (bodies tag)) r db') :
    Serialised bodies name db' (before ++ (tag, flushed tag r) :: after) := by
  subst hw
  have htag : tag ∈ (before ++ (tag, .perform (.flush tag existing (bodies tag))
      (flushed tag)) :: after).map Prod.fst := by simp
  cases existing with
  | none =>
    obtain ⟨hfree, hanswers⟩ := hanswers
    rw [if_neg fun ⟨row, hrow, heq⟩ => hserial row hrow heq] at hanswers
    obtain ⟨uuid4, hfresh, rfl, rfl⟩ := hanswers
    exact h.lock hnodup hfree (writes_insert h.keyed hname hserial hfresh htag) _
  | some existing =>
    obtain ⟨rfl, hanswers⟩ := hanswers
    have hfound := hloaded existing rfl
    by_cases hsame : BackendRepo.posted existing (bodies tag) = existing
    · rw [if_pos hsame] at hanswers
      subst hanswers
      have hassign := BackendRepo.assign_eq_of_posted hfound.costs hsame
      refine h.idle hnodup (h.not_holder hnodup fun _ => nofun) (.committing _ fun _ => ?_)
      exact hfound.current.elim id fun hmem =>
        ⟨existing, hmem, hfound.named, tag, htag, hassign⟩
    · rw [if_neg hsame] at hanswers
      obtain ⟨hfree, rfl⟩ := hanswers
      have hintact := hserial.resolve_left hsame
      rw [hname] at hintact
      exact h.lock hnodup hfree (writes_update h.keyed hfound hintact htag) _

/-- A commit, of what the session has written or of nothing. -/
theorem Serialised.finish {row : Backend} {r : DbReply (.commit tag)}
    (h : Serialised bodies name db (before ++ (tag, p) :: after))
    (hnodup : ((before ++ (tag, p) :: after).map Prod.fst).Nodup)
    (hfrom : (∀ rows, db.uncommitted ≠ some (tag, rows)) →
      FromOne bodies name ((before ++ (tag, p) :: after).map Prod.fst) db.table)
    (hanswers : db.Answers (.commit tag) r db') :
    Serialised bodies name db' (before ++ (tag, .pure (.ok row)) :: after) := by
  unfold Database.Answers at hanswers
  dsimp only at hanswers
  cases hlock : db.uncommitted with
  | none =>
    rw [hlock] at hanswers
    subst hanswers
    have hunlocked : ∀ rows, db'.uncommitted ≠ some (tag, rows) := fun rows => by simp [hlock]
    exact h.idle hnodup hunlocked (.done row (hfrom hunlocked))
  | some lock =>
    obtain ⟨holder, rows⟩ := lock
    rw [hlock] at hanswers
    dsimp only at hanswers
    by_cases heq : holder = tag
    · rw [if_pos heq] at hanswers
      subst hanswers heq
      exact h.commit hnodup hlock row
    · rw [if_neg heq] at hanswers
      subst hanswers
      have hother : ∀ rows, db'.uncommitted ≠ some (tag, rows) := fun rows' hrows => by
        rw [hlock] at hrows
        exact heq (Prod.mk.inj (Option.some.inj hrows)).1
      exact h.idle hnodup hother (.done row (hfrom hother))

theorem Serialised.step {op : DbOp} {next : DbReply op → DbAction} {r : DbReply op}
    (h : Serialised bodies name db (before ++ (tag, .perform op next) :: after))
    (hnodup : ((before ++ (tag, .perform op next) :: after).map Prod.fst).Nodup)
    {w : SessionPool} (hw : w.state = db) (hserial : Serial w tag op)
    (hanswers : db.Answers op r db') :
    Serialised bodies name db' (before ++ (tag, next r) :: after) := by
  have hstage : Stage bodies name ((before ++ (tag, .perform op next) :: after).map Prod.fst) db tag
      (.perform op next) := h.stages (tag, _) (List.mem_append_right _ List.mem_cons_self)
  generalize hp : Program.perform op next = p at h hnodup hstage
  cases hstage with
  | starting hname =>
    obtain ⟨rfl, hnext⟩ := Program.perform.inj hp
    obtain rfl := eq_of_heq hnext
    obtain ⟨rfl, rfl⟩ := hanswers
    refine h.idle hnodup (h.not_holder hnodup fun _ => nofun) (.loaded _ hname fun row hrow => ?_)
    have hmem := List.mem_of_find?_eq_some hrow
    have hnamed : row.name = name := by simpa [hname] using List.find?_some hrow
    exact ⟨hnamed, h.keyed.costs row hmem, ⟨row, hmem, hnamed, rfl⟩, .inr hmem⟩
  | loaded existing hname hloaded =>
    obtain ⟨rfl, hnext⟩ := Program.perform.inj hp
    obtain rfl := eq_of_heq hnext
    exact h.flush hnodup hname hloaded hw hserial hanswers
  | committing row hfrom =>
    obtain ⟨rfl, hnext⟩ := Program.perform.inj hp
    obtain rfl := eq_of_heq hnext
    exact h.finish hnodup hfrom hanswers
  | done row hfrom => exact nomatch hp

end Steps

theorem serialised_of_reachable {table : BackendTable} {bodies : Nat → BackendUpsert}
    {name : String} {w : SessionPool}
    (h : Pool.ReachableUnder (sessions table bodies name) Serial w)
    (hsessions : (w.tasks.map Prod.fst).Nodup) : Serialised bodies name w.state w.tasks := by
  induction h with
  | initial =>
    exact ⟨⟨table.ids, table.names, table.costs⟩, List.forall_mem_nil _, fun _ _ => nofun⟩
  | @start w tag p h hstart ih =>
    obtain ⟨hname, rfl⟩ := hstart
    rw [List.map_append] at hsessions
    obtain ⟨hkeyed, hstages, hholder⟩ := ih (List.nodup_append.mp hsessions).1
    have hsub : w.tasks.map Prod.fst ⊆
        (w.tasks ++ [(tag, upsertSession tag (bodies tag))]).map Prod.fst := by simp
    refine ⟨hkeyed, List.forall_mem_append.mpr ⟨fun task htask => ?_, ?_⟩, ?_⟩
    · exact (hstages task htask).mono hsub
    · exact List.forall_mem_singleton.mpr (.starting hname)
    · intro holder rows hlock
      obtain ⟨⟨hrows, hfrom, hkept⟩, row, hrow⟩ := hholder holder rows hlock
      exact ⟨⟨hrows, hfrom.mono hsub, hkept⟩, row, List.mem_append_left _ hrow⟩
  | @perform db db' history tag op next r before after h hguard hhandle ih =>
    have htags : ((before ++ (tag, Program.perform op next) :: after).map Prod.fst).Nodup := by
      simpa using hsessions
    exact (ih htags).step htags rfl hguard hhandle
  | drift h hdrift ih => exact hdrift.elim

/-! ## Answers that do not wait -/

namespace Database

/-- The operation need not wait for the lock. -/
def free (db : Database) : DbOp → Bool
  | .flush _ (some existing) body =>
    BackendRepo.posted existing body = existing || db.uncommitted.isNone
  | .flush _ none _ => db.uncommitted.isNone
  | _ => true

/-- An answer, with an identifier that no row has for a new row. -/
def answer : Program.Handler DbOp DbReply Database := fun db op =>
  match op with
  | .select name => (db.table.find? fun row => row.name = name, db)
  | .flush session (some existing) body =>
    (.ok (BackendRepo.posted existing body),
      if BackendRepo.posted existing body = existing then db
      else { db with uncommitted := some (session, db.table.map fun row =>
        if row.id = existing.id then BackendRepo.update existing body row else row) })
  | .flush session none body =>
    let uuid4 := (db.table.map Backend.id).sum + 1
    if ∃ row ∈ db.table, row.name = body.name then (.error ⟨⟩, db)
    else (.ok (BackendRepo.upsert db.table body uuid4).2, { db with
      uncommitted := some (session, (BackendRepo.upsert db.table body uuid4).1) })
  | .commit session =>
    ((), match db.uncommitted with
      | some (holder, rows) => if holder = session then ⟨rows, none⟩ else db
      | none => db)

theorem answers_answer {db : Database} {op : DbOp} (h : db.free op) :
    db.Answers op (db.answer op).1 (db.answer op).2 := by
  cases op with
  | select name => exact ⟨rfl, rfl⟩
  | flush session existing body =>
    cases existing with
    | none =>
      refine ⟨Option.isNone_iff_eq_none.mp h, ?_⟩
      unfold answer
      dsimp only
      by_cases hsome : ∃ row ∈ db.table, row.name = body.name
      · rw [if_pos hsome, if_pos hsome]
        exact ⟨rfl, rfl⟩
      · rw [if_neg hsome, if_neg hsome]
        refine ⟨(db.table.map Backend.id).sum + 1, fun row hrow heq => ?_, rfl, rfl⟩
        have hle := List.le_sum_of_mem (List.mem_map_of_mem (f := Backend.id) hrow)
        rw [heq] at hle
        exact Nat.not_succ_le_self _ hle
    | some existing =>
      refine ⟨rfl, ?_⟩
      unfold answer
      dsimp only
      by_cases hsame : BackendRepo.posted existing body = existing
      · rw [if_pos hsame, if_pos hsame]
      · rw [if_neg hsame, if_neg hsame]
        have hlock : db.uncommitted.isNone := by simpa [free, hsame] using h
        exact ⟨Option.isNone_iff_eq_none.mp hlock, rfl⟩
  | commit session =>
    unfold Answers answer
    dsimp only
    cases db.uncommitted <;> rfl

end Database

/-- Some session can go on. -/
def CanGoOn (w : SessionPool) : Prop := ∃ before tag op next after r db',
  w.tasks = before ++ (tag, .perform op next) :: after ∧ w.state.Answers op r db'

theorem canGoOn_of_mem {w : SessionPool} {tag : Nat} {op : DbOp} {next : DbReply op → DbAction}
    (hmem : (tag, .perform op next) ∈ w.tasks) (hfree : w.state.free op) : CanGoOn w := by
  obtain ⟨before, after, htasks⟩ := List.append_of_mem hmem
  exact ⟨before, tag, op, next, after, _, _, htasks, Database.answers_answer hfree⟩

/-- The sessions that wait for a lock wait for one that can commit. -/
theorem Serialised.canGoOn {bodies : Nat → BackendUpsert} {name : String} {w : SessionPool}
    (h : Serialised bodies name w.state w.tasks) {task : Nat × DbAction} (htask : task ∈ w.tasks)
    (hrunning : ∀ result, task.2 ≠ .pure result) : CanGoOn w := by
  obtain ⟨tag, p⟩ := task
  cases hlock : w.state.uncommitted with
  | some lock =>
    obtain ⟨-, row, hrow⟩ := h.holder lock.1 lock.2 hlock
    exact canGoOn_of_mem hrow rfl
  | none =>
    cases p with
    | pure result => exact absurd rfl (hrunning result)
    | perform op next =>
      refine canGoOn_of_mem htask ?_
      cases op with
      | flush session existing body => cases existing <;> simp [Database.free, hlock]
      | _ => rfl

/-- The committed row of the name has all columns of one of the requests. -/
def Whole (bodies : Nat → BackendUpsert) (name : String) (w : SessionPool) : Prop :=
  ∃ row, w.state.table.filter (fun row => row.name = name) = [row] ∧
    ∃ tag ∈ w.tasks.map Prod.fst, BackendRepo.assign row (bodies tag) = row

theorem Serialised.whole {bodies : Nat → BackendUpsert} {name : String} {w : SessionPool}
    (h : Serialised bodies name w.state w.tasks)
    (hfrom : FromOne bodies name (w.tasks.map Prod.fst) w.state.table) : Whole bodies name w := by
  obtain ⟨row, hrow, hname, htag⟩ := hfrom
  refine ⟨row, List.perm_singleton.mp ((List.perm_ext_iff_of_nodup
    ((h.keyed.names.of_map _).filter _) (List.nodup_singleton row)).mpr fun row' => ?_), htag⟩
  rw [List.mem_filter, List.mem_singleton, decide_eq_true_iff]
  constructor
  · rintro ⟨hrow', hname'⟩
    exact List.inj_on_of_nodup_map h.keyed.names hrow' hrow (hname'.trans hname.symm)
  · rintro rfl
    exact ⟨hrow, hname⟩

/-- If every flush meets the condition then no session ends with an error, none waits for
ever, and as soon as one has ended, the row of the name comes from one request as a whole. -/
theorem upserts_serialise (table : BackendTable) (bodies : Nat → BackendUpsert) (name : String)
    {w : SessionPool} (h : Pool.ReachableUnder (sessions table bodies name) Serial w)
    (hsessions : (w.tasks.map Prod.fst).Nodup) :
    (∀ task ∈ w.tasks, ∀ result, task.2 = .pure result → ∃ row, result = .ok row) ∧
    (∀ task ∈ w.tasks, (∀ result, task.2 ≠ .pure result) → CanGoOn w) ∧
    ((∃ task ∈ w.tasks, ∃ result, task.2 = .pure result) → Whole bodies name w) := by
  have hserialised := serialised_of_reachable h hsessions
  have hdone : ∀ task ∈ w.tasks, ∀ result, task.2 = .pure result →
      (∃ row, result = .ok row) ∧ FromOne bodies name (w.tasks.map Prod.fst) w.state.table := by
    intro task htask result hresult
    have hstage := hserialised.stages task htask
    rw [hresult] at hstage
    cases hstage with
    | done row hfrom => exact ⟨⟨row, rfl⟩, hfrom⟩
  refine ⟨fun task htask result hresult => (hdone task htask result hresult).1,
    fun task htask => hserialised.canGoOn htask, ?_⟩
  rintro ⟨task, htask, result, hresult⟩
  exact hserialised.whole (hdone task htask result hresult).2

instance {α : Type} [DecidableEq α] (loaded assigned stored : α) :
    Decidable (ColumnKept loaded assigned stored) := inferInstanceAs (Decidable (_ → _))

instance (existing : Backend) (body : BackendUpsert) (row : Backend) :
    Decidable (Intact existing body row) :=
  decidable_of_iff (ColumnKept existing.type body.type row.type ∧
      ColumnKept existing.endpoint body.endpoint row.endpoint ∧
      ColumnKept existing.model body.model row.model ∧
      ColumnKept existing.priority body.priority row.priority ∧
      ColumnKept existing.costPer1kIn (double body.costPer1kIn) row.costPer1kIn ∧
      ColumnKept existing.costPer1kOut (double body.costPer1kOut) row.costPer1kOut)
    ⟨fun ⟨h₁, h₂, h₃, h₄, h₅, h₆⟩ => ⟨h₁, h₂, h₃, h₄, h₅, h₆⟩,
      fun ⟨h₁, h₂, h₃, h₄, h₅, h₆⟩ => ⟨h₁, h₂, h₃, h₄, h₅, h₆⟩⟩

instance (w : SessionPool) (session : Nat) : (op : DbOp) → Decidable (Serial w session op)
  | .flush _ none body => inferInstanceAs (Decidable (∀ row ∈ w.state.table, row.name ≠ body.name))
  | .flush _ (some existing) body => inferInstanceAs (Decidable (_ ∨ ∀ row ∈ w.state.table,
      row.name = body.name → Intact existing body row))
  | .select _ | .commit _ => inferInstanceAs (Decidable True)

/-- One row, on which two requests change different columns. -/
def oneRow : BackendTable where
  rows := [⟨7, "a", .ollama, "old", "m", 100, true, 0, 0⟩]
  ids := by decide
  names := by decide
  costs := List.forall_mem_singleton.mpr ⟨by decide +kernel, by decide +kernel⟩

def noRow : BackendTable := ⟨[], List.nodup_nil, List.nodup_nil, List.forall_mem_nil _⟩

/-- The first request sets the endpoint, the second one the priority. -/
def twoRequests (session : Nat) : BackendUpsert :=
  if session = 0 then ⟨"a", .ollama, "new", "m", 100, 0, 0⟩
  else ⟨"a", .ollama, "old", "m", 5, 0, 0⟩

/-- Both requests have started and have taken turns in this order. -/
def takingTurns (table : BackendTable) (turns : List Nat) : SessionPool :=
  Pool.schedule Database.answer ⟨⟨table.rows, none⟩, [],
    [0, 1].map fun session => (session, upsertSession session (twoRequests session))⟩ turns

theorem reachable_takingTurns {table : BackendTable} {turns : List Nat}
    (Guard : SessionPool → Nat → DbOp → Prop) (grants : SessionPool → Nat → DbOp → Bool)
    (hgrants : ∀ w tag op, grants w tag op → Guard w tag op ∧ w.state.free op)
    (hgranted : (takingTurns table []).granted grants Database.answer turns) :
    Pool.ReachableUnder (sessions table twoRequests "a") Guard (takingTurns table turns) := by
  have hname : ∀ session, (twoRequests session).name = "a" := fun session => by
    unfold twoRequests
    split <;> rfl
  have hstarts : ∀ task ∈ (takingTurns table []).tasks,
      (sessions table twoRequests "a").starts task.1 task.2 :=
    List.forall_mem_map.mpr fun session _ => ⟨hname session, rfl⟩
  refine .schedule_of_granted (fun w tag op h => ?_) (.starts .initial hstarts) hgranted
  exact ⟨(hgrants w tag op h).1, Database.answers_answer (hgrants w tag op h).2⟩

/-- The second request reads after the first one has committed. -/
theorem upserts_serialise_one_by_one :
    Whole twoRequests "a" (takingTurns oneRow [0, 0, 0, 1, 1, 1]) := by
  refine (upserts_serialise oneRow twoRequests "a" (reachable_takingTurns _
    (fun w tag op => w.state.free op && decide (Serial w tag op)) ?_ ?_) ?_).2.2 ?_
  · exact fun w tag op h =>
      ⟨of_decide_eq_true (Bool.and_eq_true_iff.mp h).2, (Bool.and_eq_true_iff.mp h).1⟩
  · decide +kernel
  · decide +kernel
  · exact ⟨_, List.mem_cons_self, _, rfl⟩

/-- If both requests read before the first one flushes, then a new name makes the second one
fail, and of an old name the row gets the endpoint of one and the priority of the other. -/
theorem upserts_race :
    (∃ w, Pool.Reachable (sessions noRow twoRequests "a") w ∧ (w.tasks.map Prod.fst).Nodup ∧
      (∀ task ∈ w.tasks, ∃ result, task.2 = .pure result) ∧
      ∃ task ∈ w.tasks, task.2 = .pure (.error ⟨⟩)) ∧
    ∃ w, Pool.Reachable (sessions oneRow twoRequests "a") w ∧ (w.tasks.map Prod.fst).Nodup ∧
      (∀ task ∈ w.tasks, ∃ result, task.2 = .pure result) ∧ ¬ Whole twoRequests "a" w := by
  have hreachable : ∀ {table : BackendTable} {turns : List Nat},
      (takingTurns table []).granted (fun w _ op => w.state.free op) Database.answer turns →
      Pool.Reachable (sessions table twoRequests "a") (takingTurns table turns) :=
    fun hgranted => (reachable_takingTurns (fun _ _ _ => True) _
      (fun _ _ _ h => ⟨trivial, h⟩) hgranted).reachable
  refine ⟨⟨takingTurns noRow [0, 1, 0, 0, 1], hreachable (by decide +kernel), ?_, ?_, ?_⟩,
    ⟨takingTurns oneRow [0, 1, 0, 0, 1, 1], hreachable (by decide +kernel), ?_, ?_, ?_⟩⟩
  · decide +kernel
  · simp only [← Pool.isPure_iff]
    decide +kernel
  · exact ⟨_, List.mem_cons_of_mem _ List.mem_cons_self, rfl⟩
  · decide +kernel
  · simp only [← Pool.isPure_iff]
    decide +kernel
  · rintro ⟨row, hrow, hassign⟩
    have hstored : (takingTurns oneRow [0, 1, 0, 0, 1, 1]).state.table.filter
        (fun row => row.name = "a") = [⟨7, "a", .ollama, "new", "m", 5, true, 0, 0⟩] := by
      decide +kernel
    rw [hstored] at hrow
    obtain rfl := List.singleton_inj.mp hrow
    revert hassign
    decide +kernel

end InferenceGateway.Persistence
