import SqlMini.TableSessions
import SqlMini.TableMap
import SqlMini.BlindOperations
import SqlMini.PoolInvisible

/-!
# Reopening is invisible

A table is called in sessions: each opens the file, builds a pool and the table
on it, makes its calls, and destroys the table, the pool and the pager. As long
as no call throws, the results are those of the same calls in one session
(`reopening_invisible`), whatever the capacities of the pools.

Between two calls the metadata page holds what the table would write there
(`InStep`), so destroying the table leaves the pages as they are. What the
next session starts from are the same pages and, every page handed out having
been marked dirty, the same counter; the table reads its own fields back. Only
the number of requests served differs, and no operation looks at it
(`PageProg.Blind`).
-/

/-- **A file that holds an array of pages.** -/
structure PageFile.Saves (f : PageFile) (s : Store) : Prop where
  content : f.content = s.pages
  size : f.size = s.extent

namespace PageFile.Saves

variable {f : PageFile} {s s' : Store}

/-- The pool on the file starts from the same pages. -/
theorem poolOf_eq (h : f.Saves s) : SqlEngine.poolOf f = s.reopened := by
  rw [SqlEngine.poolOf, h.content, h.size]
  rfl

theorem of_like (h : f.Saves s') (hlike : s.Like s') : f.Saves s :=
  ⟨h.content.trans hlike.pages, h.size.trans hlike.extent⟩

end PageFile.Saves

namespace PageProg

variable {α : Type} {m : PageProg α} {max : ℕ}

/-- **A program over the pool of a file**, and the file that is left when the
pool is destroyed. -/
def onFile (max : ℕ) (f : PageFile) (m : PageProg α) : Except Fault (α × PageFile) := do
  let (a, pool) ← m.runPool (.create (.open f) max)
  return (a, pool.flushAll.pager.file)

/-- **A tidy program over a file** does what it does over the array of its
pages, and leaves the array in the file. -/
theorem Tidy.onFile_cases (hm : Tidy max m) (hmax : 1 ≤ max) (f : PageFile) :
    (∃ fault, m.run (SqlEngine.poolOf f) = .error fault ∧ m.onFile max f = .error fault)
      ∨ ∃ a s f', m.run (SqlEngine.poolOf f) = .ok (a, s) ∧ m.onFile max f = .ok (a, f')
        ∧ f'.Saves s := by
  rcases ((hm _).simulates hmax (sim_create f max)).2 with ⟨fault, hrun, hpool⟩
    | ⟨a, s, pool, h', U, hrun, hpool, hsim, rfl⟩
  · exact Or.inl ⟨fault, hrun, by rw [onFile, hpool]; rfl⟩
  · refine Or.inr ⟨a, s, pool.flushAll.pager.file, hrun, by rw [onFile, hpool]; rfl, ?_, ?_⟩
    · exact funext fun p => hsim.holds.content_flushAll_of_not (Set.notMem_empty p)
    · exact hsim.savedSize

end PageProg

/-! ## Sessions -/

namespace TableResult

variable {σ : Type}

/-- A call of `insert_row` or `delete_where` threw. -/
def Threw : TableResult σ → Prop
  | inserted (.error _) => True
  | deletedWhere (.error _) => True
  | _ => False

end TableResult

namespace Table

open PageProg BTree

variable {σ : Type}

/-- Calls of a table, one after the other. -/
def execAll (t : Table) : List (TableOp σ) → PageProg (List (TableResult σ) × Table)
  | [] => pure ([], t)
  | op :: ops => do
    let r ← t.exec op
    let rs ← r.2.execAll ops
    return (r.1 :: rs.1, rs.2)

/-- A table is built, called and destroyed. -/
def lifetime (schema : Schema) (create isNew : Bool) (ops : List (TableOp σ)) :
    PageProg (List (TableResult σ)) := do
  let t ← construct schema create isNew
  let rs ← t.execAll ops
  destruct rs.2
  return rs.1

/-- **A session** on a file, with a pool of `max` pages. -/
def runSession (schema : Schema) (create : Bool) (max : ℕ) (ops : List (TableOp σ))
    (f : PageFile) : Except Fault (List (TableResult σ) × PageFile) :=
  (lifetime schema create ((Pager.open f).numPages = 0) ops).onFile max f

/-- **Sessions** on a file, one after the other. The first one may create the
table. -/
def runSessions (schema : Schema) : (create : Bool) → List (ℕ × List (TableOp σ)) → PageFile →
    Except Fault (List (List (TableResult σ)))
  | _, [], _ => .ok []
  | create, (max, ops) :: rest, f => do
    let (rs, f) ← runSession schema create max ops f
    let rss ← runSessions schema false rest f
    return rs :: rss

/-! ## The operations do not look at the clock -/

theorem blind_exec (t : Table) : ∀ op : TableOp σ, Blind (t.exec op)
  | .insert row => Blind.bind (blind_insertRow t row) (fun _ => blind_pure _)
  | .delete rowid => Blind.bind (blind_deleteRow rowid) (fun _ => blind_pure _)
  | .deleteWhere pred => Blind.bind (blind_deleteWhere t pred) (fun _ => blind_pure _)
  | .find rowid => Blind.bind (blind_findByRowid t rowid) (fun _ => blind_pure _)
  | .scan cb st => Blind.bind (blind_scan t cb st) (fun _ => blind_pure _)

theorem blind_execAll : ∀ (ops : List (TableOp σ)) (t : Table), Blind (t.execAll ops)
  | [], _ => blind_pure _
  | op :: ops, t => Blind.bind (blind_exec t op) (fun r =>
      Blind.bind (blind_execAll ops r.2) (fun _ => blind_pure _))

variable {max : ℕ}

theorem tidy_execAll (hmax : 3 ≤ max) : ∀ (ops : List (TableOp σ)) (t : Table),
    Tidy max (t.execAll ops)
  | [], _ => tidy_pure _
  | op :: ops, _ => (tidy_exec hmax op).bind (fun r =>
      (tidy_execAll hmax ops r.2).bind (fun _ => tidy_pure _))

theorem tidy_lifetime (hmax : 3 ≤ max) (schema : Schema) (create isNew : Bool)
    (ops : List (TableOp σ)) : Tidy max (lifetime schema create isNew ops) := by
  refine (tidy_construct schema create isNew).bind (fun t => ?_)
  refine (tidy_execAll hmax ops t).bind (fun rs => ?_)
  exact (tidy_writeMeta.bind (fun _ _ => safe_flushAll rfl)).bind (fun _ => tidy_pure _)

/-! ## The metadata is on its page -/

/-- Writing the metadata twice is writing it once. -/
theorem metaPage_metaPage (t : Table) (buf : Page) :
    metaPage t (metaPage t buf) = metaPage t buf := by
  refine Buffer.ext_byte (fun i _ => ?_)
  simp only [metaPage, Buffer.writeLE, Buffer.byte_blit]
  split_ifs <;> rfl

/-- **The metadata is on its page**: writing it changes nothing. -/
def MetaStored (t : Table) (s : Store) : Prop :=
  metaPage t (s.pages schemaPageId) = s.pages schemaPageId

/-- **Between two calls** the table is in order, and its metadata is on its
page. -/
structure InStep (t : Table) (s : Store) : Prop where
  kept : Kept t s
  stored : MetaStored t s

variable {t t' : Table} {s s' : Store}

/-- The array after the metadata was written. -/
theorem metaStored_metaStore : MetaStored t (metaStore t s) := by
  have hmeta : (metaStore t s).pages schemaPageId = metaPage t (s.pages schemaPageId) :=
    Function.update_self schemaPageId _ s.pages
  rw [MetaStored, hmeta, metaPage_metaPage]

/-- **An insertion** that returns has written the metadata last. -/
theorem always_placeRow_stored {hbuf : PagePtr} {data : ByteString} :
    Always (placeRow t hbuf data) s (fun r s' => r.2.schema = t.schema
      ∧ ∀ rowid, r.1 = .ok rowid → MetaStored r.2 s') := by
  unfold placeRow
  refine Always.bind (fun buf s₁ _ => Always.bind (always_lift.mpr (fun r _ => ?_)))
  split
  case isTrue => exact ((runs_pure _).mpr ⟨rfl, by rintro rowid ⟨⟩⟩).always
  case isFalse =>
    refine Always.bind (fun _ _ _ => Always.bind (fun _ _ _ => Always.bind (fun _ s₂ _ => ?_)))
    refine Always.bind (fun _ s₃ hrun => ?_)
    obtain ⟨-, -, rfl⟩ := runs_writeMeta.mp (run_eq_ok.mp hrun)
    exact ((runs_pure _).mpr ⟨rfl, fun _ _ => metaStored_metaStore⟩).always

theorem always_insertRow_stored {row : Row} :
    Always (insertRow t row) s (fun r s' => r.2.schema = t.schema
      ∧ ∀ rowid, r.1 = .ok rowid → MetaStored r.2 s') := by
  unfold insertRow
  refine Always.bind (fun hbuf s₁ _ => Always.bind (Runs.always (runs_load.mpr ?_)))
  split
  case isTrue =>
    simp only
    split
    case isTrue => exact ((runs_pure _).mpr ⟨rfl, by rintro rowid ⟨⟩⟩).always
    case isFalse => exact Always.bind (fun _ _ _ => always_placeRow_stored)
  case isFalse => exact always_placeRow_stored

namespace InStep

/-- A new table. -/
theorem new {schema : Schema} (hfit : schema.Fits) :
    InStep ⟨schema, 1, 512⟩ (metaStore ⟨schema, 1, 512⟩ newHeap) :=
      ⟨.new hfit, metaStored_metaStore⟩

theorem atClock (h : InStep t s) (c : ℕ) : InStep t (s.atClock c) := ⟨h.kept.atClock c, h.stored⟩

/-- A call that spares the metadata. -/
theorem of_spared (h : InStep t s) (hk : Kept t s') (hspared : Store.Spared s s') : InStep t s' :=
  ⟨hk, by rw [MetaStored, hspared.metadata]; exact h.stored⟩

/-- **A call that does not throw** leaves the metadata on its page. -/
theorem of_exec {op : TableOp σ} {r : TableResult σ} (h : InStep t s)
    (hrun : (t.exec op).run s = .ok ((r, t'), s')) (hquiet : ¬ r.Threw) :
    InStep t' s' ∧ t'.schema = t.schema := by
  cases op with
  | insert row =>
    obtain ⟨⟨r₁, t₁⟩, s₁, hins, hret⟩ := runs_bind.mp (run_eq_ok.mp hrun)
    obtain ⟨heq, rfl⟩ := (runs_pure _).mp hret
    obtain ⟨rfl, rfl⟩ := Prod.mk.inj heq
    obtain ⟨hschema, hstored⟩ := always_insertRow_stored _ _ hins
    cases r₁ with
    | error e => exact absurd trivial hquiet
    | ok rowid => exact ⟨⟨h.kept.of_insertRow hins, hstored rowid rfl⟩, hschema⟩
  | delete rowid =>
    obtain ⟨hit, s₁, hdel, hret⟩ := runs_bind.mp (run_eq_ok.mp hrun)
    obtain ⟨heq, rfl⟩ := (runs_pure _).mp hret
    obtain ⟨rfl, rfl⟩ := Prod.mk.inj heq
    obtain ⟨hk, hspared⟩ := (h.kept.runs_deleteRow rowid.isLt).always _ _ hdel
    exact ⟨h.of_spared hk hspared, rfl⟩
  | deleteWhere pred =>
    obtain ⟨r₁, s₁, hdel, hret⟩ := runs_bind.mp (run_eq_ok.mp hrun)
    obtain ⟨heq, rfl⟩ := (runs_pure _).mp hret
    obtain ⟨rfl, rfl⟩ := Prod.mk.inj heq
    obtain ⟨hk, hspared⟩ := h.kept.always_deleteWhere pred _ _ hdel
    exact ⟨h.of_spared hk hspared, rfl⟩
  | find rowid =>
    obtain ⟨n, -, hstate⟩ := h.kept
    obtain ⟨r₁, s₁, hfind, hret⟩ := runs_bind.mp (run_eq_ok.mp hrun)
    obtain ⟨heq, rfl⟩ := (runs_pure _).mp hret
    obtain ⟨rfl, rfl⟩ := Prod.mk.inj heq
    obtain ⟨c, rfl⟩ := always_findByRowid (leafRows_sound n) (leafSays_rows n rowid) hstate
      rowid.isLt _ _ hfind
    exact ⟨h.atClock c, rfl⟩
  | scan cb st =>
    obtain ⟨n, -, hstate⟩ := h.kept
    obtain ⟨r₁, s₁, hscan, hret⟩ := runs_bind.mp (run_eq_ok.mp hrun)
    obtain ⟨heq, rfl⟩ := (runs_pure _).mp hret
    obtain ⟨rfl, rfl⟩ := Prod.mk.inj heq
    obtain ⟨⟨c, rfl⟩, -⟩ := always_scan (I := fun _ => True) (leafRows_sound n) (leafSays_rows n)
      hstate (fun _ _ _ _ _ _ _ _ => trivial) trivial _ _ hscan
    exact ⟨h.atClock c, rfl⟩

/-- **Calls that do not throw**, one after the other. -/
theorem of_execAll : ∀ (ops : List (TableOp σ)) (t t' : Table) (s s' : Store)
    (rs : List (TableResult σ)),
    InStep t s → (t.execAll ops).run s = .ok ((rs, t'), s') → (∀ r ∈ rs, ¬ r.Threw) →
    InStep t' s' ∧ t'.schema = t.schema
  | [], t, t', s, s', rs, h, hrun, _ => by
    obtain ⟨heq, rfl⟩ := Prod.mk.inj (Except.ok.inj hrun)
    obtain ⟨-, rfl⟩ := Prod.mk.inj heq
    exact ⟨h, rfl⟩
  | op :: ops, t, t', s, s', rs, h, hrun, hquiet => by
    obtain ⟨r, s₁, hop, hrest⟩ := runs_bind.mp (run_eq_ok.mp hrun)
    obtain ⟨rs₁, s₂, hops, hret⟩ := runs_bind.mp hrest
    obtain ⟨heq, rfl⟩ := (runs_pure _).mp hret
    obtain ⟨rfl, rfl⟩ := Prod.mk.inj heq
    obtain ⟨h₁, hschema₁⟩ := h.of_exec hop (hquiet r.1 List.mem_cons_self)
    obtain ⟨h₂, hschema₂⟩ := of_execAll ops r.2 rs₁.2 s₁ s₂ rs₁.1 h₁ hops
      (fun r' hr' => hquiet r' (List.mem_cons_of_mem r.1 hr'))
    exact ⟨h₂, hschema₂.trans hschema₁⟩

/-- The pages of a table in order are fewer than the counter can count. -/
theorem reopened (h : InStep t s) :
    s.reopened.nextPageId = s.nextPageId ∧ s.extent % uint32Size ≠ 0 := by
  obtain ⟨n, -, hstate⟩ := h.kept
  obtain ⟨lab, H, hT⟩ := hstate.tree
  have hsmall := hT.next_small (leafRows_sound n)
  have hbase := hT.base_le
  have hmod : s.extent % 4294967296 = s.nextPageId := by
    rw [hT.synced]
    exact Nat.mod_eq_of_lt (by omega)
  refine ⟨hmod, fun hzero => ?_⟩
  have hzero' : s.extent % 4294967296 = 0 := hzero
  omega

/-- **Destroying a table** leaves the pages as they are. -/
theorem runs_destruct (h : InStep t s) : ∃ s', (destruct t).run s = .ok ((), s') ∧ s.Like s' := by
  obtain ⟨n, -, hstate⟩ := h.kept
  obtain ⟨_, s', hrun, rfl⟩ := (Table.runs_destruct (Q := fun _ s' => s' = metaStore t s)).mpr
    ⟨hstate.fits, rfl⟩
  refine ⟨_, hrun, ?_, ?_, ?_⟩
  · show Function.update s.pages schemaPageId (metaPage t (s.pages schemaPageId)) = s.pages
    rw [show metaPage t _ = _ from h.stored, Function.update_eq_self]
  · exact Store.nextPageId_touch_of_lt s _ (hstate.lt_next le_rfl)
  · exact hstate.lt_extent le_rfl

/-- **Building the table again** reads its fields back. -/
theorem runs_construct (h : InStep t s) (hcounts : ByteCounts t.schema.cols) :
    ∃ s', (construct t.schema false false).run s.reopened = .ok (t, s') ∧ s.Like s' := by
  obtain ⟨n, -, hstate⟩ := h.kept
  have hcur := hstate.heap.cur_mem.2
  have hnext := h.reopened.1
  have hpage : s.reopened.pages schemaPageId = metaPage t (s.pages schemaPageId) :=
    Eq.symm h.stored
  have hbuilt : Runs (construct t.schema false false) s.reopened
      (fun t' s' => t' = t ∧ s' = (s.reopened.touch rootPageId).touch schemaPageId) := by
    refine runs_construct_stored.mpr ⟨_, hpage ▸ storedSchema_metaPage hstate.fits hcounts, ?_, rfl⟩
    rw [hpage, readLE_metaPage_nextRowid hstate.rowid_lt,
      readLE_metaPage_curHeapPage (lt_of_le_of_lt hcur (by decide))]
  refine ⟨_, run_eq_ok.mpr hbuilt, rfl, ?_, rfl⟩
  rw [Store.nextPageId_touch_of_lt, Store.nextPageId_touch_of_lt, hnext]
  · rw [hnext]
    exact hstate.lt_next (Nat.zero_le _)
  · rw [Store.nextPageId_touch_of_lt, hnext]
    · exact hstate.lt_next le_rfl
    · rw [hnext]
      exact hstate.lt_next (Nat.zero_le _)

end InStep

/-! ## Sessions in step with one run -/

variable {schema : Schema} {create isNew : Bool} {f : PageFile} {ops ops' : List (TableOp σ)}
  {rs : List (TableResult σ)} {s₀ : Store}

/-- Calls that were made in one go, taken apart. -/
theorem execAll_append : ∀ (ops : List (TableOp σ)) (t t' : Table) (s s' : Store)
    (rs : List (TableResult σ)), (t.execAll (ops ++ ops')).run s = .ok ((rs, t'), s') →
    ∃ rs₁ t₁ s₁ rs₂, (t.execAll ops).run s = .ok ((rs₁, t₁), s₁)
      ∧ (t₁.execAll ops').run s₁ = .ok ((rs₂, t'), s') ∧ rs = rs₁ ++ rs₂
  | [], t, t', s, s', rs, hrun => ⟨[], t, s, rs, rfl, hrun, rfl⟩
  | op :: ops, t, t', s, s', rs, hrun => by
    obtain ⟨r, s₁, hop, hrest⟩ := runs_bind.mp (run_eq_ok.mp hrun)
    obtain ⟨⟨rs₁, t₁⟩, s₂, hops, hret⟩ := runs_bind.mp hrest
    obtain ⟨heq, rfl⟩ := (runs_pure _).mp hret
    obtain ⟨rfl, rfl⟩ := Prod.mk.inj heq
    obtain ⟨rs₂, t₂, s₃, rs₃, hfirst, hsecond, rfl⟩ := execAll_append ops r.2 t₁ s₁ s₂ rs₁ hops
    refine ⟨r.1 :: rs₂, t₂, s₃, rs₃, ?_, hsecond, rfl⟩
    exact run_eq_ok.mpr (runs_bind.mpr ⟨r, s₁, hop, runs_bind.mpr ⟨(rs₂, t₂), s₃, hfirst,
      (runs_pure _).mpr ⟨rfl, rfl⟩⟩⟩)

/-- **A session** whose table starts like one in use, called without an
exception, returns what the one in use returns, and saves its pages. -/
theorem InStep.runSession (h : InStep t s) (hmax : 3 ≤ max) (hlike : s.Like s₀)
    (hnew : decide ((Pager.open f).numPages = 0) = isNew)
    (hbuilt : (construct schema create isNew).run (SqlEngine.poolOf f) = .ok (t, s₀))
    (hrun : (t.execAll ops).run s = .ok ((rs, t'), s')) (hquiet : ∀ r ∈ rs, ¬ r.Threw) :
    ∃ f', Table.runSession schema create max ops f = .ok (rs, f') ∧ f'.Saves s' := by
  subst hnew
  have h' := (h.of_execAll ops t t' s s' rs hrun hquiet).1
  obtain ⟨s₁, hrun₁, hlike₁⟩ := (blind_execAll ops t).run_like hlike hrun
  obtain ⟨s₂, hclose, hlike₂⟩ := h'.runs_destruct
  obtain ⟨s₃, hclose₃, hlike₃⟩ := (blind_destruct t').run_like hlike₁ hclose
  have hlife : (lifetime schema create ((Pager.open f).numPages = 0) ops).run
      (SqlEngine.poolOf f) = .ok (rs, s₃) :=
    run_eq_ok.mpr (runs_bind.mpr ⟨t, s₀, hbuilt, runs_bind.mpr ⟨(rs, t'), s₁, hrun₁,
      runs_bind.mpr ⟨(), s₃, hclose₃, (runs_pure _).mpr ⟨rfl, rfl⟩⟩⟩⟩)
  rcases (tidy_lifetime hmax schema create _ ops).onFile_cases (le_trans (by decide) hmax) f with
    ⟨fault, herr, -⟩ | ⟨a, s₄, f', hok, hfile, hsaves⟩
  · rw [hlife] at herr
    cases herr
  · obtain ⟨rfl, rfl⟩ := Prod.mk.inj (Except.ok.inj (hlife.symm.trans hok))
    exact ⟨f', hfile, hsaves.of_like (hlike₂.trans hlike₃)⟩

/-- **Sessions on a file** that holds the pages of a table in use return what
the calls return without them. -/
theorem InStep.runSessions (hcounts : ByteCounts schema.cols) :
    ∀ (cuts : List (ℕ × List (TableOp σ))) (t : Table) (s : Store) (f : PageFile)
      (rs : List (TableResult σ)), InStep t s → t.schema = schema → f.Saves s →
      (∀ c ∈ cuts, 3 ≤ c.1) → (t.execAll (cuts.flatMap Prod.snd)).run s = .ok ((rs, t'), s') →
      (∀ r ∈ rs, ¬ r.Threw) →
      ∃ rss, Table.runSessions schema false cuts f = .ok rss ∧ rss.flatten = rs
  | [], t, s, f, rs, _, _, _, _, hrun, _ => by
    obtain ⟨heq, -⟩ := Prod.mk.inj (Except.ok.inj hrun)
    obtain ⟨rfl, -⟩ := Prod.mk.inj heq
    exact ⟨[], rfl, rfl⟩
  | (max, ops) :: cuts, t, s, f, rs, h, hschema, hsaves, hcuts, hrun, hquiet => by
    obtain ⟨rs₁, t₁, s₁, rs₂, hfirst, hrest, rfl⟩ := execAll_append ops t t' s s' rs hrun
    have hquiet₁ : ∀ r ∈ rs₁, ¬ r.Threw := fun r hr => hquiet r (List.mem_append_left rs₂ hr)
    obtain ⟨h₁, hschema₁⟩ := h.of_execAll ops t t₁ s s₁ rs₁ hfirst hquiet₁
    have hold : decide ((Pager.open f).numPages = 0) = false := by
      refine decide_eq_false (fun hzero => h.reopened.2 ?_)
      rw [← hsaves.size]
      exact hzero
    obtain ⟨s₀, hbuilt, hlike⟩ := h.runs_construct (hschema ▸ hcounts)
    rw [← hsaves.poolOf_eq, hschema] at hbuilt
    obtain ⟨f', hsession, hsaves'⟩ := h.runSession (hcuts _ List.mem_cons_self) hlike hold hbuilt
      hfirst hquiet₁
    obtain ⟨rss, hsessions, hflat⟩ := InStep.runSessions hcounts cuts t₁ s₁ f' rs₂ h₁
      (hschema₁.trans hschema) hsaves' (fun c hc => hcuts c (List.mem_cons_of_mem _ hc)) hrest
      (fun r hr => hquiet r (List.mem_append_right rs₁ hr))
    refine ⟨rs₁ :: rss, ?_, ?_⟩
    · rw [Table.runSessions, hsession]
      show (Table.runSessions schema false cuts f' >>= fun rss => pure (rs₁ :: rss)) = _
      rw [hsessions]
      rfl
    · rw [List.flatten_cons, hflat]

/-- **One session** on a file, as a run over the array of its pages. -/
theorem runSession_eq_ok (hmax : 3 ≤ max) {f' : PageFile}
    (hrun : runSession schema create max ops f = .ok (rs, f')) :
    ∃ t s t' s', (construct schema create ((Pager.open f).numPages = 0)).run (SqlEngine.poolOf f)
        = .ok (t, s) ∧ (t.execAll ops).run s = .ok ((rs, t'), s') := by
  rcases (tidy_lifetime hmax schema create _ ops).onFile_cases (le_trans (by decide) hmax) f with
    ⟨fault, -, herr⟩ | ⟨a, s₃, f₁, hlife, hfile, -⟩
  · cases herr.symm.trans hrun
  · obtain ⟨rfl, -⟩ := Prod.mk.inj (Except.ok.inj (hfile.symm.trans hrun))
    obtain ⟨t, s, hbuilt, hrest⟩ := runs_bind.mp (run_eq_ok.mp hlife)
    obtain ⟨⟨rs₁, t'⟩, s', hcalls, hrest⟩ := runs_bind.mp hrest
    obtain ⟨-, s₂, -, hret⟩ := runs_bind.mp hrest
    obtain ⟨rfl, -⟩ := (runs_pure _).mp hret
    exact ⟨t, s, t', s', hbuilt, hcalls⟩

/-- **Closing and opening a table is invisible**: cut into sessions, calls of a
new table of which none throws return what they return in one session. -/
theorem reopening_invisible (hcounts : ByteCounts schema.cols)
    (hfit : schema.serialize.length ≤ 4084) (hmax : 3 ≤ max)
    {cuts : List (ℕ × List (TableOp σ))} (hcuts : ∀ c ∈ cuts, 3 ≤ c.1) {f : PageFile}
    (hrun : runSession schema true max (cuts.flatMap Prod.snd) .empty = .ok (rs, f))
    (hquiet : ∀ r ∈ rs, ¬ r.Threw) :
    ∃ rss, runSessions schema true cuts .empty = .ok rss ∧ rss.flatten = rs := by
  obtain ⟨t, s, t', s', hbuilt, hcalls⟩ := runSession_eq_ok hmax hrun
  have hnew : decide ((Pager.open .empty).numPages = 0) = true := rfl
  obtain ⟨-, rfl, rfl⟩ := construct_eq_ok.mp hbuilt
  have h := InStep.new (hcounts.fits_iff.mpr hfit)
  cases cuts with
  | nil =>
    obtain ⟨heq, -⟩ := Prod.mk.inj (Except.ok.inj hcalls)
    obtain ⟨rfl, -⟩ := Prod.mk.inj heq
    exact ⟨[], rfl, rfl⟩
  | cons c cuts =>
    obtain ⟨rs₁, t₁, s₁, rs₂, hfirst, hrest, rfl⟩ := execAll_append c.2 _ t' _ s' rs hcalls
    have hquiet₁ : ∀ r ∈ rs₁, ¬ r.Threw := fun r hr => hquiet r (List.mem_append_left rs₂ hr)
    obtain ⟨h₁, hschema₁⟩ := h.of_execAll c.2 _ t₁ _ s₁ rs₁ hfirst hquiet₁
    obtain ⟨f', hsession, hsaves'⟩ := h.runSession (hcuts c List.mem_cons_self) (.refl _) hnew
      hbuilt hfirst hquiet₁
    obtain ⟨rss, hsessions, hflat⟩ := InStep.runSessions hcounts cuts t₁ s₁ f' rs₂ h₁ hschema₁
      hsaves' (fun c' hc' => hcuts c' (List.mem_cons_of_mem _ hc')) hrest
      (fun r hr => hquiet r (List.mem_append_right rs₁ hr))
    refine ⟨rs₁ :: rss, ?_, ?_⟩
    · rw [Table.runSessions, hsession]
      show (Table.runSessions schema false cuts f' >>= fun rss => pure (rs₁ :: rss)) = _
      rw [hsessions]
      rfl
    · rw [List.flatten_cons, hflat]

/-- A row is inserted in one session, and found in the next. -/
theorem reopening_invisible_two : ∃ rs f,
    runSession (σ := Unit) counters true 256 [.insert [.makeInt (.ofUInt 7)], .find 1] .empty
        = .ok (rs, f)
      ∧ ∃ rss, runSessions counters true
          [(256, [.insert [.makeInt (.ofUInt 7)]]), (256, [.find 1])] .empty = .ok rss
        ∧ rss.flatten = rs := by
  have hfit : counters.Fits := by decide
  obtain ⟨m, t, s, hins, hm, -⟩ := Stands.exists_first hfit
    (show [Value.makeInt (.ofUInt 7)].length = 1 from rfl) (by decide)
  obtain ⟨row, s', hfind, -⟩ := hm.runs_findByRowid (show 1 < 4294967296 by decide)
  have hcalls : (execAll (σ := Unit) ⟨counters, 1, 512⟩
      [.insert [.makeInt (.ofUInt 7)], .find 1]).run (metaStore ⟨counters, 1, 512⟩ newHeap)
        = .ok (([.inserted (.ok 1), .found row], t), s') := by
    refine run_eq_ok.mpr (runs_bind.mpr ⟨_, s, run_eq_ok.mpr (runs_bind.mpr ⟨_, _, hins,
      (runs_pure _).mpr ⟨rfl, rfl⟩⟩), runs_bind.mpr ⟨([.found row], t), s', ?_, ?_⟩⟩)
    · exact run_eq_ok.mpr (runs_bind.mpr ⟨(.found row, t), s', run_eq_ok.mpr (runs_bind.mpr
        ⟨_, _, hfind, (runs_pure _).mpr ⟨rfl, rfl⟩⟩), (runs_pure _).mpr ⟨rfl, rfl⟩⟩)
    · exact (runs_pure _).mpr ⟨rfl, rfl⟩
  have hquiet : ∀ r ∈ [TableResult.inserted (.ok 1), .found row], ¬ r.Threw (σ := Unit) := by
    simp [TableResult.Threw]
  have hnew : decide ((Pager.open .empty).numPages = 0) = true := rfl
  obtain ⟨f, hrun, -⟩ := (InStep.new hfit).runSession (show 3 ≤ 256 by decide) (.refl _) hnew
    (construct_eq_ok.mpr ⟨hfit, rfl, rfl⟩) hcalls hquiet
  have hcuts : ∀ c ∈ ([(256, [.insert [.makeInt (.ofUInt 7)]]), (256, [.find 1])] :
      List (ℕ × List (TableOp Unit))), 3 ≤ c.1 := by simp
  exact ⟨_, f, hrun, reopening_invisible (by decide) (by decide) (by decide) hcuts hrun hquiet⟩

end Table
