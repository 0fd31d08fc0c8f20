import TradingService.ReadModel.Redelivery

/-!
# The boot backfill

At boot the wallets of the source are copied into the read model. A wallet that is there is
left as it is, but the index on the primary wallets is not part of the conflict that the
insert tolerates: a source primary is refused if its user has another primary locally. Row
by row the local wallets stay, and what was inserted came from the rows before.
-/

namespace TradingService

open WalletTable

structure UserWallet where
  userId : Uuid
  walletAddress : String
  isPrimary : Option Bool
  blockchainRegistered : Option Bool
  userAccountPda : Option String
  shardId : Option I16
  deriving DecidableEq

def UserWallet.record (w : UserWallet) : WalletReadModelRecord where
  userId := w.userId
  walletAddress := w.walletAddress
  isPrimary := w.isPrimary.getD false
  blockchainRegistered := w.blockchainRegistered.getD false
  userAccountPda := w.userAccountPda
  shardId := w.shardId

/-- Where the source is: in a database of its own, beside the read model, or nowhere that
the service can reach. -/
inductive WalletSource
  | separate (rows : List UserWallet)
  | shared (rows : List UserWallet)
  | missing

def WalletSource.wallets : WalletSource → List UserWallet
  | .separate rows => rows
  | .shared rows => rows
  | .missing => []

def SourceOnePrimary (rows : List UserWallet) : Prop :=
  ∀ w ∈ rows, ∀ w' ∈ rows, w.record.isPrimary → w'.record.isPrimary → w.userId = w'.userId → w = w'

instance (rows : List UserWallet) : Decidable (SourceOnePrimary rows) :=
  inferInstanceAs (Decidable (∀ w ∈ rows, ∀ w' ∈ rows, _))

namespace WalletTable

/-- `ON CONFLICT (user_id, wallet_address) DO NOTHING`. -/
def insertOrIgnore (t : WalletTable) (row : WalletRow) : Except DbError (WalletTable × ℕ) :=
  match t.insert? row with
  | none => .ok (t, 0)
  | some t' => (checkPrimary t').map (·, 1)

def backfillWallet (t : WalletTable) (w : UserWallet) (now : ℤ) : Except DbError (WalletTable × ℕ) :=
  match w.record.store now with
  | none => .error .invalidText
  | some row => t.insertOrIgnore row

def backfillRows : List UserWallet → (ℕ → ℤ) → WalletTable → WalletTable × Except DbError ℕ
  | [], _, t => (t, .ok 0)
  | w :: rows, clock, t =>
    match t.backfillWallet w (clock 0) with
    | .error e => (t, .error e)
    | .ok (t', inserted) =>
      let rest := backfillRows rows (fun k => clock (k + 1)) t'
      (rest.1, rest.2.map (inserted + ·))

/-- A source of its own is copied row by row, and one beside the read model by one statement. -/
def backfillWallets (t : WalletTable) (source : WalletSource) (clock : ℕ → ℤ) :
    WalletTable × Except DbError ℕ :=
  match source with
  | .separate rows => backfillRows rows clock t
  | .shared rows =>
    let out := backfillRows rows (fun _ => clock 0) t
    match out.2 with
    | .ok inserted => (out.1, .ok inserted)
    | .error e => (t, .error e)
  | .missing => (t, .ok 0)

end WalletTable

def UserWallet.key (w : UserWallet) : Option (Uuid × VarChar 64) := (w.record.store 0).map WalletRow.key

structure Seeded (t : WalletTable) (before : List UserWallet) (t' : WalletTable) : Prop where
  kept : ∀ r ∈ t.rows, r ∈ t'.rows
  origin : ∀ r ∈ t'.rows, r ∈ t.rows ∨ ∃ w ∈ before, ∃ now, w.record.store now = some r
  seeded : ∀ w ∈ before, ∃ r ∈ t'.rows, w.key = some r.key
  onePrimary : t'.OnePrimary

def Admits (t : WalletTable) (before : List UserWallet) (w : UserWallet) : Prop :=
  ∃ row, w.record.store 0 = some row ∧ (row.isPrimary → (∃ r ∈ t.rows, r.key = row.key) ∨
    (∃ w' ∈ before, w'.key = some row.key) ∨ ∀ r ∈ t.rows, r.isPrimary → r.userId ≠ row.userId)

/-- Every row fits when its turn comes. -/
def AdmitsAll (t : WalletTable) : List UserWallet → List UserWallet → Prop
  | _, [] => True
  | before, w :: rows => Admits t before w ∧ AdmitsAll t (before ++ [w]) rows

section Step

variable {t t' : WalletTable} {before : List UserWallet} {w : UserWallet} {now : ℤ} {row : WalletRow}

theorem key_of_store (h : w.record.store now = some row) : w.key = some row.key := by
  rw [WalletReadModelRecord.store_eq] at h
  obtain ⟨row₀, hrow₀, rfl⟩ := Option.map_eq_some_iff.mp h
  rw [UserWallet.key, hrow₀]
  rfl

theorem insertOrIgnore_eq_ok {inserted : ℕ} (h : t.insertOrIgnore row = .ok (t', inserted)) :
    (t' = t ∧ ∃ r ∈ t.rows, r.key = row.key) ∨ (t'.rows = row :: t.rows ∧ t'.OnePrimary) := by
  unfold insertOrIgnore at h
  cases hinsert : t.insert? row with
  | none =>
    rw [hinsert] at h
    obtain ⟨rfl, _⟩ := Prod.mk.inj (Except.ok.inj h)
    exact .inl ⟨rfl, KeyedTable.insert?_eq_none.mp hinsert⟩
  | some t₁ =>
    rw [hinsert] at h
    dsimp only [checkPrimary] at h
    split_ifs at h with hone
    · obtain ⟨rfl, _⟩ := Prod.mk.inj (Except.ok.inj h)
      exact .inr ⟨(KeyedTable.insert?_eq_some hinsert).2, hone⟩
    · cases h

/-- The insert is refused exactly for a second primary wallet of the user. -/
theorem insertOrIgnore_accepts_iff (hone : t.OnePrimary) :
    (∃ out, t.insertOrIgnore row = .ok out) ↔ (row.isPrimary →
      (∃ r ∈ t.rows, r.key = row.key) ∨ ∀ r ∈ t.rows, r.isPrimary → r.userId ≠ row.userId) := by
  constructor
  · rintro ⟨⟨t', inserted⟩, hok⟩ hprimary
    rcases insertOrIgnore_eq_ok hok with ⟨_, hkey⟩ | ⟨hrows, hone'⟩
    · exact .inl hkey
    · by_cases hkey : ∃ r ∈ t.rows, r.key = row.key
      · exact .inl hkey
      · refine .inr fun r hr hp huser => hkey ⟨r, hr, ?_⟩
        rw [hone' r (by rw [hrows]; exact List.mem_cons_of_mem _ hr) row
          (by rw [hrows]; exact List.mem_cons_self) hp hprimary huser]
  · intro hadmits
    unfold insertOrIgnore
    cases hinsert : t.insert? row with
    | none => exact ⟨_, rfl⟩
    | some t₁ =>
      obtain ⟨hfresh, hrows⟩ := KeyedTable.insert?_eq_some hinsert
      have hother : row.isPrimary → ∀ r ∈ t.rows, r.isPrimary → r.userId ≠ row.userId := fun hp =>
        (hadmits hp).resolve_left fun ⟨r, hr, hkey⟩ => hfresh r hr hkey
      have hone' : OnePrimary t₁ := by
        unfold OnePrimary
        rw [hrows]
        intro r hr r' hr' hp hp' huser
        rcases List.mem_cons.mp hr with rfl | hmem <;> rcases List.mem_cons.mp hr' with rfl | hmem'
        · rfl
        · exact absurd huser.symm (hother hp r' hmem' hp')
        · exact absurd huser (hother hp' r hmem hp)
        · exact hone r hmem r' hmem' hp hp' huser
      dsimp only
      rw [checkPrimary_eq hone']
      exact ⟨_, rfl⟩

theorem Seeded.start (hone : t.OnePrimary) : Seeded t [] t where
  kept _ hr := hr
  origin _ hr := .inl hr
  seeded := by simp
  onePrimary := hone

theorem Seeded.insert (h : Seeded t before t') (hstore : w.record.store now = some row)
    {t'' : WalletTable} {inserted : ℕ} (hinsert : t'.insertOrIgnore row = .ok (t'', inserted)) :
    Seeded t (before ++ [w]) t'' := by
  rcases insertOrIgnore_eq_ok hinsert with ⟨rfl, r, hr, hkey⟩ | ⟨hrows, hone⟩
  · refine ⟨h.kept, fun r hr => ?_, List.forall_mem_append.mpr ⟨h.seeded, ?_⟩, h.onePrimary⟩
    · exact (h.origin r hr).imp_right fun ⟨w', hw', hfrom⟩ => ⟨w', List.mem_append_left _ hw', hfrom⟩
    · rintro w' hw'
      obtain rfl := List.mem_singleton.mp hw'
      exact ⟨r, hr, by rw [key_of_store hstore, hkey]⟩
  · refine ⟨fun r hr => ?_, fun r hr => ?_, List.forall_mem_append.mpr ⟨fun w' hw' => ?_, ?_⟩, hone⟩
    · rw [hrows]
      exact List.mem_cons_of_mem _ (h.kept r hr)
    · rw [hrows] at hr
      rcases List.mem_cons.mp hr with rfl | hr
      · exact .inr ⟨w, List.mem_append_right _ (List.mem_singleton_self w), now, hstore⟩
      · exact (h.origin r hr).imp_right fun ⟨w', hw', hfrom⟩ => ⟨w', List.mem_append_left _ hw', hfrom⟩
    · obtain ⟨r, hr, hkey⟩ := h.seeded w' hw'
      exact ⟨r, by rw [hrows]; exact List.mem_cons_of_mem _ hr, hkey⟩
    · rintro w' hw'
      obtain rfl := List.mem_singleton.mp hw'
      exact ⟨row, by rw [hrows]; exact List.mem_cons_self, key_of_store hstore⟩

/-- Whether a source wallet is taken can be told from the read model as it was at the start
and from the source. -/
theorem Seeded.accepts_iff (h : Seeded t before t') (hsource : SourceOnePrimary (before ++ [w])) :
    (∃ out, t'.backfillWallet w now = .ok out) ↔ Admits t before w := by
  unfold backfillWallet Admits
  cases hstore : w.record.store now with
  | none =>
    rw [WalletReadModelRecord.store_eq, Option.map_eq_none_iff] at hstore
    simp [hstore]
  | some row =>
    obtain ⟨row₀, hrow₀, hrow⟩ : ∃ row₀, w.record.store 0 = some row₀ ∧ row₀.stamped now = row := by
      rwa [WalletReadModelRecord.store_eq, Option.map_eq_some_iff] at hstore
    simp only [hrow₀, Option.some.injEq, exists_eq_left']
    rw [insertOrIgnore_accepts_iff h.onePrimary]
    subst hrow
    refine forall_congr' fun hprimary => ⟨?_, ?_⟩
    · rintro (⟨r, hr, hkey⟩ | hother)
      · rcases h.origin r hr with hr | ⟨w', hw', now', hfrom⟩
        · exact .inl ⟨r, hr, hkey⟩
        · exact .inr (.inl ⟨w', hw', by rw [key_of_store hfrom, hkey]; rfl⟩)
      · exact .inr (.inr fun r hr => hother r (h.kept r hr))
    · rintro (⟨r, hr, hkey⟩ | ⟨w', hw', hkey⟩ | hother)
      · exact .inl ⟨r, h.kept r hr, hkey⟩
      · obtain ⟨r, hr, hkey'⟩ := h.seeded w' hw'
        exact .inl ⟨r, hr, Option.some.inj (hkey'.symm.trans hkey)⟩
      · by_cases hkey : ∃ r ∈ t'.rows, r.key = (row₀.stamped now).key
        · exact .inl hkey
        · refine .inr fun r hr hp huser => ?_
          rcases h.origin r hr with hlocal | ⟨w', hw', now', hfrom⟩
          · exact hother r hlocal hp huser
          · -- Another primary wallet of the user in the source would be this one.
            obtain ⟨huser', _, hprimary', _⟩ := WalletReadModelRecord.store_eq_some hfrom
            obtain ⟨huser₀, _, hprimary₀, _⟩ := WalletReadModelRecord.store_eq_some hrow₀
            obtain rfl : w' = w := hsource w' (List.mem_append_left _ hw') w
              (List.mem_append_right _ (List.mem_singleton_self w)) (hprimary' ▸ hp)
              (hprimary₀ ▸ hprimary) (huser'.symm.trans (huser.trans huser₀))
            have hfiled : r.key = row₀.key :=
              Option.some.inj ((key_of_store hfrom).symm.trans (key_of_store hrow₀))
            exact hkey ⟨r, hr, hfiled⟩

end Step

section Run

variable {t t' : WalletTable} {before rows : List UserWallet}

theorem sourceOnePrimary_append_left {rows' : List UserWallet} (h : SourceOnePrimary (rows ++ rows')) :
    SourceOnePrimary rows :=
  fun w hw w' hw' => h w (List.mem_append_left _ hw) w' (List.mem_append_left _ hw')

/-- The loop gets to the end exactly if every row fits when its turn comes. -/
theorem backfillRows_spec (hseeded : Seeded t before t') (hsource : SourceOnePrimary (before ++ rows))
    (clock : ℕ → ℤ) :
    ((∃ n, (backfillRows rows clock t').2 = .ok n) ↔ AdmitsAll t before rows) ∧
      (∀ n, (backfillRows rows clock t').2 = .ok n →
        Seeded t (before ++ rows) (backfillRows rows clock t').1) := by
  induction rows generalizing before t' clock with
  | nil =>
    refine ⟨iff_of_true ⟨0, rfl⟩ trivial, fun _ _ => ?_⟩
    rw [List.append_nil]
    exact hseeded
  | cons w rows ih =>
    rw [List.append_cons] at hsource ⊢
    have haccepts : (∃ out, t'.backfillWallet w (clock 0) = .ok out) ↔ Admits t before w :=
      hseeded.accepts_iff (sourceOnePrimary_append_left hsource)
    unfold backfillRows AdmitsAll
    cases hstep : t'.backfillWallet w (clock 0) with
    | error e =>
      rw [hstep] at haccepts
      refine ⟨iff_of_false (by simp) fun hall => ?_, by simp⟩
      obtain ⟨out, hout⟩ := haccepts.mpr hall.1
      cases hout
    | ok out =>
      obtain ⟨t'', inserted⟩ := out
      have hadmits : Admits t before w := haccepts.mp ⟨_, hstep⟩
      have hseeded' : Seeded t (before ++ [w]) t'' := by
        unfold backfillWallet at hstep
        split at hstep
        · cases hstep
        next row hstore => exact hseeded.insert hstore hstep
      obtain ⟨hiff, hend⟩ := ih hseeded' hsource fun k => clock (k + 1)
      dsimp only
      refine ⟨?_, fun n hn => ?_⟩
      · rw [and_iff_right hadmits, ← hiff]
        cases (backfillRows rows (fun k => clock (k + 1)) t'').2 <;> simp [Except.map]
      · cases hrest : (backfillRows rows (fun k => clock (k + 1)) t'').2 with
        | error e =>
          rw [hrest] at hn
          cases hn
        | ok m => exact hend m hrest

end Run

/-- The boot backfill completes: it returns `Ok`, leaves the rows that were there, and every
source wallet has a row. -/
structure BackfillCompletes (t : WalletTable) (source : WalletSource) (clock : ℕ → ℤ) : Prop where
  ok : ∃ inserted, (t.backfillWallets source clock).2 = .ok inserted
  kept : ∀ r ∈ t.rows, r ∈ (t.backfillWallets source clock).1.rows
  filed : ∀ w ∈ source.wallets, ∃ r ∈ (t.backfillWallets source clock).1.rows, w.key = some r.key

/-- The backfill completes exactly if every source wallet fits when its turn comes. -/
theorem backfill_completes_iff (t : WalletTable) (source : WalletSource) (clock : ℕ → ℤ)
    (hone : t.OnePrimary) (hsource : SourceOnePrimary source.wallets) :
    BackfillCompletes t source clock ↔ AdmitsAll t [] source.wallets := by
  cases source with
  | separate rows =>
    obtain ⟨hiff, hseeded⟩ := backfillRows_spec (.start hone) hsource clock
    refine ⟨fun h => hiff.mp h.ok, fun hadmits => ?_⟩
    obtain ⟨n, hn⟩ := hiff.mpr hadmits
    have hend := hseeded n hn
    exact ⟨⟨n, hn⟩, hend.kept, hend.seeded⟩
  | shared rows =>
    obtain ⟨hiff, hseeded⟩ := backfillRows_spec (.start hone) hsource fun _ => clock 0
    cases hn : (backfillRows rows (fun _ => clock 0) t).2 with
    | error e =>
      refine iff_of_false (fun h => ?_) fun hadmits => ?_
      · obtain ⟨n, hok⟩ := h.ok
        simp [backfillWallets, hn] at hok
      · obtain ⟨n, hok⟩ := hiff.mpr hadmits
        rw [hn] at hok
        cases hok
    | ok n =>
      have hend := hseeded n hn
      have hout : t.backfillWallets (.shared rows) clock =
          ((backfillRows rows (fun _ => clock 0) t).1, .ok n) := by
        simp only [backfillWallets, hn]
      refine iff_of_true ⟨⟨n, by rw [hout]⟩, ?_, ?_⟩ (hiff.mp ⟨n, hn⟩)
      · rw [hout]
        exact hend.kept
      · rw [hout]
        exact hend.seeded
  | missing => exact iff_of_true ⟨⟨0, rfl⟩, fun _ hr => hr, by simp [WalletSource.wallets]⟩ trivial

def oneLocalWallet : WalletTable where
  rows := [⟨1, ⟨"home", by decide⟩, true, true, none, none, 5⟩]
  keys_nodup := by decide

theorem backfill_completes_iff_new_user :
    BackfillCompletes oneLocalWallet (.separate [⟨2, "away", some true, none, none, none⟩]) (fun _ => 9) ↔
      AdmitsAll oneLocalWallet [] [⟨2, "away", some true, none, none, none⟩] :=
  backfill_completes_iff oneLocalWallet (.separate [⟨2, "away", some true, none, none, none⟩])
    (fun _ => 9) (by decide) (by decide)

def promotedAway : List UserWallet :=
  [⟨1, "home", some false, none, none, none⟩, ⟨1, "away", some true, none, none, none⟩]

theorem backfill_refuses_new_primary :
    oneLocalWallet.OnePrimary ∧ SourceOnePrimary promotedAway ∧
      ¬BackfillCompletes oneLocalWallet (.separate promotedAway) fun _ => 9 := by
  refine ⟨by decide, by decide, fun h => ?_⟩
  obtain ⟨inserted, hok⟩ := h.ok
  have hrefused : (oneLocalWallet.backfillWallets (.separate promotedAway) fun _ => 9).2.isOk = false := by
    decide +kernel
  rw [hok] at hrefused
  cases hrefused

end TradingService
