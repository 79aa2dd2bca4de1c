import Sxiaum.Types
import Sxiaum.Lib.Guards
import Sxiaum.Lib.HashMap

/-!
# Replay protection of commits

The commit-reveal pool (`mempool/src/ordering.rs`) marks every commit that it accepts and prunes
the marks of commits that it would refuse as stale. After a restart it is at height zero until the
next block, so that for a while the commits of the first blocks are not stale.
-/

namespace Sxiaum.Mempool

open Guards

structure CommitTransaction where
  id : Hash
  commitHash : Hash
  sender : Address
  submittedAt : ℕ
  expiresAt : ℕ

structure CommitRevealConfig where
  revealWindowBlocks : ℕ
  commitExpiryBlocks : ℕ
  maxCommitsPerSender : ℕ

inductive CommitError where
  | pendingCommitCapacityExceeded (limit : ℕ)
  | invalidCommitId
  | invalidCommitExpiry
  | replayCommitRejected (id : Hash)
  | futureCommitSubmission (submittedAt currentHeight : ℕ)
  | staleCommitSubmission (submittedAt currentHeight : ℕ)
  | frontRunningDetected
  | senderCommitLimitExceeded (sender : Address) (limit : ℕ)

/-- The marks are rows of the storage, with the height of the commit. -/
structure CommitRevealPool where
  pendingCommits : HashMap Hash CommitTransaction
  senderCommitCount : HashMap Address ℕ
  currentHeight : ℕ
  seenCommits : HashMap Hash ℕ

def maxPendingCommits : ℕ := 10000

namespace CommitRevealPool

variable (config : CommitRevealConfig) (sha256 : Hash → Address → ℕ → Hash)
  (pool : CommitRevealPool)

def detectFrontRunning (candidate : CommitTransaction) : Bool :=
  pool.pendingCommits.values.any fun existing =>
    existing.commitHash = candidate.commitHash ∧ existing.sender ≠ candidate.sender

def insertCommitLocally (commit : CommitTransaction) : Except CommitError CommitRevealPool := do
  bailIf (maxPendingCommits ≤ pool.pendingCommits.entries.length)
    (.pendingCommitCapacityExceeded maxPendingCommits)
  bailIf (commit.id ≠ sha256 commit.commitHash commit.sender commit.submittedAt) .invalidCommitId
  bailIf (commit.expiresAt ≠ satAdd64 (satAdd64 commit.submittedAt config.revealWindowBlocks)
    config.commitExpiryBlocks) .invalidCommitExpiry
  bailIf (commit.id ∈ pool.seenCommits) (.replayCommitRejected commit.id)
  bailIf (satAdd64 pool.currentHeight 1 < commit.submittedAt)
    (.futureCommitSubmission commit.submittedAt pool.currentHeight)
  bailIf (satAdd64 commit.submittedAt 1 < pool.currentHeight)
    (.staleCommitSubmission commit.submittedAt pool.currentHeight)
  bailIf (pool.detectFrontRunning commit) .frontRunningDetected
  let senderCount := (pool.senderCommitCount.lookup commit.sender).getD 0
  bailIf (config.maxCommitsPerSender ≤ senderCount)
    (.senderCommitLimitExceeded commit.sender config.maxCommitsPerSender)
  return { pool with
    pendingCommits := pool.pendingCommits.insert commit.id commit
    senderCommitCount := pool.senderCommitCount.insert commit.sender (senderCount + 1)
    seenCommits := pool.seenCommits.insert commit.id commit.submittedAt }

def pruneSeenCommits : CommitRevealPool :=
  let horizon := pool.currentHeight -
    satAdd64 (satAdd64 config.revealWindowBlocks config.commitExpiryBlocks) 64
  if pool.currentHeight ≤ 64 then pool else { pool with
    seenCommits := pool.seenCommits.retain fun _ submittedAt => horizon ≤ submittedAt }

end CommitRevealPool

/-- A pool, the commits it has accepted and the highest block so far. -/
structure PoolRun where
  pool : CommitRevealPool
  accepted : List Hash
  height : ℕ

variable (config : CommitRevealConfig) (sha256 : Hash → Address → ℕ → Hash)

/-- What happens to a pool, with commits only where they are allowed. Reveals, expiry and a restart
leave some pending commits. -/
inductive PoolStep (allowed : PoolRun → Prop) : PoolRun → PoolRun → Prop
  | commit {s : PoolRun} {c : CommitTransaction} {pool' : CommitRevealPool} (hallowed : allowed s)
      (h : s.pool.insertCommitLocally config sha256 c = .ok pool') :
      PoolStep allowed s ⟨pool', c.id :: s.accepted, s.height⟩
  | block {s : PoolRun} {height : ℕ} (h : s.height ≤ height) :
      PoolStep allowed s ⟨{ s.pool with currentHeight := height }, s.accepted, height⟩
  | prune {s : PoolRun} :
      PoolStep allowed s { s with pool := s.pool.pruneSeenCommits config }
  | pending {s : PoolRun} (pending : HashMap Hash CommitTransaction) (counts : HashMap Address ℕ) :
      PoolStep allowed s { s with
        pool := { s.pool with pendingCommits := pending, senderCommitCount := counts } }
  | restart {s : PoolRun} (pending : HashMap Hash CommitTransaction)
      (counts : HashMap Address ℕ) :
      PoolStep allowed s { s with pool := ⟨pending, counts, 0, s.pool.seenCommits⟩ }

/-- The pool is at the height of the last block. -/
def PoolRun.Current (s : PoolRun) : Prop := s.pool.currentHeight = s.height

def PoolRun.start : PoolRun := ⟨⟨∅, ∅, 0, ∅⟩, [], 0⟩

/-- Every accepted commit is marked or stale for good. -/
structure PoolRun.Marked (s : PoolRun) : Prop where
  nodup : s.accepted.Nodup
  known : s.pool.currentHeight ≤ s.height
  marked : ∀ id ∈ s.accepted, ∃ commitHash sender submittedAt,
    id = sha256 commitHash sender submittedAt ∧
      (s.pool.seenCommits.lookup id = some submittedAt ∨ submittedAt + 64 < s.height)

variable {config sha256} {s t : PoolRun}

section

variable (hsha : ∀ a b n a' b' n', sha256 a b n = sha256 a' b' n' → n = n')

include hsha

lemma PoolRun.Marked.step (h : s.Marked sha256) (hstep : PoolStep config sha256 Current s t) :
    t.Marked sha256 := by
  cases hstep with
  | @commit c _ hcurrent hok =>
    simp only [CommitRevealPool.insertCommitLocally, bind_ok, exists_unit, bailIf_ok, not_not,
      pure_ok, not_lt] at hok
    obtain ⟨-, hid, -, hunseen, -, hfresh, -, -, rfl⟩ := hok
    have hnew : ∀ n, s.pool.seenCommits.lookup c.id ≠ some n := fun n hn =>
      hunseen (AList.lookup_isSome.1 (by rw [hn]; rfl))
    refine ⟨List.nodup_cons.2 ⟨fun hmem => ?_, h.nodup⟩, h.known, List.forall_mem_cons.2
      ⟨⟨_, _, _, hid, .inl (AList.lookup_insert _)⟩, fun id hmem => ?_⟩⟩
    · -- the mark of an accepted commit is gone only if the commit is stale
      obtain ⟨a, b, n, heq, hmark | hstale⟩ := h.marked c.id hmem
      · exact hnew n hmark
      · rw [← hsha _ _ _ _ _ _ (heq.symm.trans hid), hcurrent] at hfresh
        have := hfresh.trans (min_le_left _ _)
        omega
    · obtain ⟨a, b, n, heq, hmark⟩ := h.marked id hmem
      refine ⟨a, b, n, heq, hmark.imp_left fun hmark => ?_⟩
      have hne : id ≠ c.id := by
        rintro rfl
        exact hnew n hmark
      rwa [AList.lookup_insert_ne hne]
  | block hle =>
    refine ⟨h.nodup, le_refl _, fun id hmem => ?_⟩
    obtain ⟨a, b, n, heq, hmark⟩ := h.marked id hmem
    exact ⟨a, b, n, heq, hmark.imp_right fun hstale => hstale.trans_le hle⟩
  | prune =>
    unfold CommitRevealPool.pruneSeenCommits
    dsimp only
    split_ifs
    · exact h
    refine ⟨h.nodup, h.known, fun id hmem => ?_⟩
    obtain ⟨a, b, n, heq, hmark | hstale⟩ := h.marked id hmem
    · refine ⟨a, b, n, heq, ?_⟩
      -- a mark that is pruned is at least 64 blocks old
      have hslack : 64 ≤
          satAdd64 (satAdd64 config.revealWindowBlocks config.commitExpiryBlocks) 64 :=
        le_min (Nat.le_add_left _ _) (by decide)
      have hknown := h.known
      rw [AList.lookup_retain, hmark, Option.filter_some]
      split_ifs with hkept
      · exact .inl rfl
      · rw [decide_eq_true_iff] at hkept
        exact .inr (show n + 64 < s.height by omega)
    · exact ⟨a, b, n, heq, .inr hstale⟩
  | pending => exact ⟨h.nodup, h.known, h.marked⟩
  | restart => exact ⟨h.nodup, Nat.zero_le _, h.marked⟩

/-- In every run in which a restarted pool learns the height before it takes commits, each commit
is accepted at most once. -/
theorem commits_accepted_once
    (h : Relation.ReflTransGen (PoolStep config sha256 PoolRun.Current) .start t) :
    t.accepted.Nodup := by
  have hmarked : t.Marked sha256 := by
    induction h with
    | refl => exact ⟨List.nodup_nil, le_refl _, fun _ hmem => by cases hmem⟩
    | tail _ hstep ih => exact ih.step hsha hstep
  exact hmarked.nodup

end

def toyConfig : CommitRevealConfig := ⟨1, 1, 1⟩

def toySha (commitHash : Hash) (sender : Address) (submittedAt : ℕ) : Hash :=
  Nat.pair (Nat.pair commitHash sender) submittedAt

def toyCommit : CommitTransaction := ⟨toySha 7 8 0, 7, 8, 0, 2⟩

/-- A commit of height zero is accepted, its mark is pruned at height 128, and it is accepted again
after a restart. -/
theorem commit_accepted_twice : ∃ t, ¬ t.accepted.Nodup ∧
    Relation.ReflTransGen (PoolStep toyConfig toySha fun _ => True) .start t := by
  have hcommit := fun s p => @PoolStep.commit toyConfig toySha (fun _ => True) s toyCommit p trivial
  refine ⟨_, ?_, .tail (.tail (.tail (.tail (.tail .refl (hcommit _ _ rfl))
    (.block (Nat.zero_le 128))) .prune) (.restart ∅ ∅)) (hcommit _ _ rfl)⟩
  decide

def laterCommit : CommitTransaction := ⟨toySha 7 8 128, 7, 8, 128, 130⟩

/-- The same with the height announced after the restart; the pool takes a commit of that height. -/
theorem pruned_commit_accepted_once :
    ∃ t : PoolRun, t.accepted = [laterCommit.id, toyCommit.id] ∧
      t.pool.seenCommits.lookup toyCommit.id = none ∧ t.accepted.Nodup := by
  have hcommit := fun c s p => @PoolStep.commit toyConfig toySha PoolRun.Current s c p
  exact ⟨_, rfl, rfl, commits_accepted_once (fun _ _ _ _ _ _ h => (Nat.pair_eq_pair.1 h).2)
    (.tail (.tail (.tail (.tail (.tail (.tail .refl (hcommit toyCommit .start _ rfl rfl))
      (.block (Nat.zero_le 128))) .prune) (.restart ∅ ∅)) (.block (le_refl 128)))
        (hcommit laterCommit _ _ rfl rfl))⟩

end Sxiaum.Mempool
