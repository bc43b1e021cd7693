import Mathlib.Data.Finset.Card
import Mathlib.Data.Finset.Range
import IshtarOxide.Lib.Machine
import IshtarOxide.Lib.Seccomp

/-!
# A Linux process

The part of a process that a sandbox is about: descriptors, resource limits,
Landlock domain, system call filters, address space and output.

* `Process.setLimit`, `createRuleset`, `restrictSelf`, `installFilter`: what a
  process may do to confine itself, and when that fails.
* `Process.perform`: the effect of the system calls on descriptors, pages and
  output. What the kernel is free to choose (where a mapping goes, how far a
  failing call gets, which bytes a buffer holds) is a `Choice`.
* `kernel`: a process that issues system calls until a filter kills it.

An address space is modelled by its pages. A page remembers how it came to be
(`Origin`), which no system call reads.
-/

namespace Linux

/-- The system calls that have an effect here or are named by a filter. -/
inductive Sysno
  | brk | madvise | mremap | munmap | futex | schedYield | rtSigaction | rtSigprocmask
  | rtSigreturn | sigaltstack | close | exit | exitGroup | mmap | mprotect | write | writev
  | getrandom
  | other (nr : Nat)
deriving DecidableEq, Repr

inductive Errno
  | eperm | emfile | enosys | einval
deriving DecidableEq, Repr

/-! ## Descriptors -/

/-- The open descriptors of a process. -/
structure Descriptors where
  fds : Finset Nat
  bounded : ∀ fd ∈ fds, fd < 2 ^ 31
deriving DecidableEq

namespace Descriptors

/-- The lowest number that is not open. -/
def lowestFree (d : Descriptors) : Nat :=
  ((List.range (d.fds.card + 1)).find? (· ∉ d.fds)).getD 0

/-- A new descriptor is the lowest free number, if that is below the limit. -/
def allocate (d : Descriptors) (limit : Nat) : Option (Nat × Descriptors) :=
  if h : d.lowestFree < limit ∧ d.lowestFree < 2 ^ 31 then
    some (d.lowestFree, ⟨insert d.lowestFree d.fds, fun fd hfd => by
      rcases Finset.mem_insert.mp hfd with rfl | hfd
      · exact h.2
      · exact d.bounded fd hfd⟩)
  else none

def close (d : Descriptors) (fd : Nat) : Descriptors :=
  ⟨d.fds.erase fd, fun n hn => d.bounded n (Finset.mem_of_mem_erase hn)⟩

/-- `close_range(first, last)`. -/
def closeRange (d : Descriptors) (first last : Nat) : Descriptors :=
  ⟨d.fds.filter fun fd => ¬ (first ≤ fd ∧ fd ≤ last), fun n hn =>
    d.bounded n (Finset.mem_of_mem_filter n hn)⟩

theorem lowestFree_spec (d : Descriptors) :
    d.lowestFree ∉ d.fds ∧ ∀ n < d.lowestFree, n ∈ d.fds := by
  unfold lowestFree
  cases hf : (List.range (d.fds.card + 1)).find? (· ∉ d.fds) with
  | none =>
    -- too many numbers to be all open
    have hall : Finset.range (d.fds.card + 1) ⊆ d.fds := by
      intro n hn
      have := List.find?_eq_none.mp hf n (List.mem_range.mpr (Finset.mem_range.mp hn))
      simpa using this
    have hcard := Finset.card_le_card hall
    rw [Finset.card_range] at hcard
    exact absurd hcard (Nat.not_succ_le_self _)
  | some n =>
    obtain ⟨hn, i, hi, heq, hbefore⟩ := List.find?_eq_some_iff_getElem.mp hf
    simp only [List.getElem_range] at heq
    subst heq
    refine ⟨by simpa using hn, fun m hm => ?_⟩
    simpa using hbefore m hm

/-- With 0 to `n - 1` open and `n` free, `n` is the next descriptor. -/
theorem lowestFree_eq {d : Descriptors} {n : Nat} (hn : n ∉ d.fds) (h : ∀ m < n, m ∈ d.fds) :
    d.lowestFree = n := by
  obtain ⟨hfree, hbelow⟩ := d.lowestFree_spec
  rcases Nat.lt_trichotomy d.lowestFree n with hlt | heq | hgt
  · exact absurd (h _ hlt) hfree
  · exact heq
  · exact absurd (hbelow n hgt) hn

theorem mem_closeRange {d : Descriptors} {first last fd : Nat} :
    fd ∈ (d.closeRange first last).fds ↔ fd ∈ d.fds ∧ ¬ (first ≤ fd ∧ fd ≤ last) :=
  Finset.mem_filter

/-- A descriptor that was allocated and closed again leaves no trace. -/
theorem close_allocate {d d' : Descriptors} {limit fd : Nat}
    (h : d.allocate limit = some (fd, d')) : d'.close fd = d := by
  unfold allocate at h
  split at h
  · cases h
    have : (insert d.lowestFree d.fds).erase d.lowestFree = d.fds :=
      Finset.erase_insert d.lowestFree_spec.1
    cases d
    simp only [close, Descriptors.mk.injEq]
    exact this
  · cases h

end Descriptors

/-! ## Address space -/

/-- How a page came to be: it was there when the last filter was installed,
executable or not, or it was made since. -/
inductive Origin
  | before (exec : Bool)
  | mmap
  | brk
deriving DecidableEq, Repr

structure Page where
  read : Bool
  write : Bool
  exec : Bool
  anonymous : Bool
  origin : Origin
deriving DecidableEq, Repr

/-- Pages by number; addresses are in bytes. -/
structure AddressSpace where
  pages : Nat → Option Page
  heapStart : Nat
  brk : Nat

def pageSize : Nat := 4096

/-- The page that an address is in. -/
def pageOf (address : Nat) : Nat := address / pageSize

/-- The number of pages of `length` bytes. -/
def pageCount (length : Nat) : Nat := (length + pageSize - 1) / pageSize

def protRead : BitVec 64 := 1
def protWrite : BitVec 64 := 2
def protExec : BitVec 64 := 4
def mapFixed : BitVec 64 := 0x10
def mapAnonymous : BitVec 64 := 0x20
def mremapMayMove : BitVec 64 := 1
def mremapFixed : BitVec 64 := 2
def mremapDontUnmap : BitVec 64 := 4

/-- The flag is set. -/
def flag (x mask : BitVec 64) : Bool := x &&& mask ≠ 0

/-- The page with the protection that `prot` asks for. -/
def Page.protect (page : Page) (prot : BitVec 64) : Page :=
  { page with read := flag prot protRead, write := flag prot protWrite, exec := flag prot protExec }

namespace AddressSpace

/-- `count` pages from `first` on become `page`. -/
def map (s : AddressSpace) (first count : Nat) (page : Page) : AddressSpace :=
  { s with pages := fun n => if first ≤ n ∧ n < first + count then some page else s.pages n }

def unmap (s : AddressSpace) (first count : Nat) : AddressSpace :=
  { s with pages := fun n => if first ≤ n ∧ n < first + count then none else s.pages n }

def protect (s : AddressSpace) (first count : Nat) (prot : BitVec 64) : AddressSpace :=
  { s with
    pages := fun n =>
      if first ≤ n ∧ n < first + count then (s.pages n).map (·.protect prot) else s.pages n }

/-- The mapping of `oldCount` pages at `old` becomes one of `newCount` pages at
`new`. What it grows by is like its last page. -/
def move (s : AddressSpace) (old oldCount new newCount : Nat) (keep : Bool) : AddressSpace :=
  { s with
    pages := fun n =>
      if new ≤ n ∧ n < new + newCount then s.pages (old + min (n - new) (oldCount - 1))
      else if keep = false ∧ old ≤ n ∧ n < old + oldCount then none
      else s.pages n }

/-- No page of the range is mapped. -/
def free (s : AddressSpace) (first count : Nat) : Bool :=
  (List.range count).all fun i => (s.pages (first + i)).isNone

/-- `brk(address)`, when the kernel grants it. -/
def setBrk (s : AddressSpace) (address : Nat) : AddressSpace :=
  if address < s.heapStart then s
  else if s.brk ≤ address then
    { s.map (pageCount s.brk) (pageCount address - pageCount s.brk) ⟨true, true, false, true, .brk⟩
      with brk := address }
  else
    { s.unmap (pageCount address) (pageCount s.brk - pageCount address) with brk := address }

/-- Every page is one of those there are now. -/
def stamp (s : AddressSpace) : AddressSpace :=
  { s with pages := fun n => (s.pages n).map fun page => { page with origin := .before page.exec } }

/-- Every mapped page satisfies `P`. -/
def Forall (P : Page → Prop) (s : AddressSpace) : Prop := ∀ n page, s.pages n = some page → P page

variable {P : Page → Prop} {s : AddressSpace}

theorem Forall.map (h : Forall P s) {page : Page} (hp : P page) (first count : Nat) :
    Forall P (s.map first count page) := by
  intro n pg hpg
  simp only [AddressSpace.map] at hpg
  split at hpg
  · cases hpg
    exact hp
  · exact h n pg hpg

theorem Forall.unmap (h : Forall P s) (first count : Nat) : Forall P (s.unmap first count) := by
  intro n pg hpg
  simp only [AddressSpace.unmap] at hpg
  split at hpg
  · cases hpg
  · exact h n pg hpg

theorem Forall.protect (h : Forall P s) {prot : BitVec 64}
    (hp : ∀ page, P page → P (page.protect prot)) (first count : Nat) :
    Forall P (s.protect first count prot) := by
  intro n pg hpg
  simp only [AddressSpace.protect] at hpg
  split at hpg
  · obtain ⟨old, hold, rfl⟩ := Option.map_eq_some_iff.mp hpg
    exact hp old (h n old hold)
  · exact h n pg hpg

theorem Forall.move (h : Forall P s) (old oldCount new newCount : Nat) (keep : Bool) :
    Forall P (s.move old oldCount new newCount keep) := by
  intro n pg hpg
  simp only [AddressSpace.move] at hpg
  split at hpg
  · exact h _ pg hpg
  · split at hpg
    · cases hpg
    · exact h n pg hpg

theorem Forall.setBrk (h : Forall P s) (hp : P ⟨true, true, false, true, .brk⟩) (address : Nat) :
    Forall P (s.setBrk address) := by
  unfold AddressSpace.setBrk
  split
  · exact h
  · split
    · exact h.map hp _ _
    · exact h.unmap _ _

end AddressSpace

/-! ## Processes -/

inductive Resource
  | addressSpace | cpu | openFiles | processes | fileSize
deriving DecidableEq, Repr

/-- A soft and a hard limit. -/
structure Limit where
  cur : Nat
  max : Nat
deriving DecidableEq, Repr

/-- A Landlock ruleset without rules: it denies what it handles, the accesses
of the ABI version `abi`. -/
structure Ruleset where
  abi : Nat
deriving DecidableEq, Repr

inductive Status
  | running
  | exited
  | killed
deriving DecidableEq, Repr

/-- How a process ended. -/
inductive ExitStatus
  | code (n : Nat)
  | signal (n : Nat)
deriving DecidableEq, Repr

/-- Bytes that left the process. -/
structure Output where
  nr : Sysno
  fd : Nat
  bytes : List UInt8
deriving DecidableEq, Repr

structure Process where
  descriptors : Descriptors
  limits : Resource → Limit
  privileged : Bool
  noNewPrivs : Bool
  domain : List Ruleset
  filters : List (Seccomp.Filter Sysno)
  space : AddressSpace
  output : List Output
  status : Status

/-- What the kernel is free to choose in one call. -/
structure Choice where
  place : Option Nat
  reached : Nat
  bytes : List UInt8
deriving DecidableEq, Repr

/-- A kernel: which features it has, whether filters can be compiled for its
architecture, and what it does on the calls that are not described here.
Whatever has Landlock has `close_range`. -/
structure Kernel where
  landlockAbi : Nat
  hasCloseRange : Bool
  hasSeccomp : Bool
  knownArch : Bool
  closeRange_of_landlock : 0 < landlockAbi → hasCloseRange = true
  other : Seccomp.Call Sysno → Process → Process

namespace Process

/-- `close_range(first, last, 0)`. -/
def closeRange (k : Kernel) (p : Process) (first last : Nat) : Except Errno Process :=
  if k.hasCloseRange then .ok { p with descriptors := p.descriptors.closeRange first last }
  else .error .enosys

/-- `prctl(PR_SET_NO_NEW_PRIVS, 1)`. -/
def setNoNewPrivs (p : Process) : Except Errno Process := .ok { p with noNewPrivs := true }

/-- The limits with the one of `resource` replaced. -/
def withLimit (p : Process) (resource : Resource) (limit : Limit) : Process :=
  { p with limits := fun r => if r = resource then limit else p.limits r }

/-- `setrlimit`. Only a privileged process raises a hard limit. -/
def setLimit (p : Process) (resource : Resource) (limit : Limit) : Except Errno Process :=
  if limit.max < limit.cur then .error .einval
  else if (p.limits resource).max < limit.max ∧ p.privileged = false then .error .eperm
  else .ok (p.withLimit resource limit)

/-- `landlock_create_ruleset`: the ruleset is a descriptor. -/
def createRuleset (k : Kernel) (p : Process) : Except Errno (Nat × Process) :=
  if k.landlockAbi = 0 then .error .enosys
  else
    match p.descriptors.allocate (p.limits .openFiles).cur with
    | none => .error .emfile
    | some (fd, descriptors) => .ok (fd, { p with descriptors := descriptors })

/-- `landlock_restrict_self`. -/
def restrictSelf (p : Process) (ruleset : Ruleset) : Except Errno Process :=
  if p.noNewPrivs = false ∧ p.privileged = false then .error .eperm
  else .ok { p with domain := p.domain ++ [ruleset] }

def close (p : Process) (fd : Nat) : Process :=
  { p with descriptors := p.descriptors.close fd }

/-- `seccomp(SECCOMP_SET_MODE_FILTER)`. From here on, pages are told apart by
whether they are there now. -/
def installFilter (k : Kernel) (p : Process) (filter : Seccomp.Filter Sysno) :
    Except Errno Process :=
  if k.hasSeccomp = false then .error .einval
  else if p.noNewPrivs = false ∧ p.privileged = false then .error .eperm
  else .ok { p with filters := filter :: p.filters, space := p.space.stamp }

/-- Lowering a limit always works. -/
theorem setLimit_lower {p : Process} {resource : Resource} {value : Nat}
    (h : value ≤ (p.limits resource).max) :
    p.setLimit resource ⟨value, value⟩ = .ok (p.withLimit resource ⟨value, value⟩) := by
  unfold setLimit
  rw [if_neg (Nat.lt_irrefl value), if_neg fun hlt => absurd hlt.1 (Nat.not_lt.mpr h)]

/-! ### System calls -/

/-- A descriptor argument is an `int`: the kernel looks at its low 32 bits. -/
def fdArg (x : BitVec 64) : Nat := x.toNat % 2 ^ 32

/-- `mmap(address, length, prot, flags, fd, offset)`. -/
def mmap (p : Process) (args : Fin 6 → BitVec 64) (choice : Choice) : Process :=
  let count := pageCount (args 1).toNat
  let anonymous := flag (args 3) mapAnonymous
  match choice.place with
  | none => p
  | some place =>
    if count = 0 ∨ (anonymous = false ∧ fdArg (args 4) ∉ p.descriptors.fds) then p
    else
      let page := Page.protect ⟨false, false, false, anonymous, .mmap⟩ (args 2)
      if flag (args 3) mapFixed then
        { p with space := p.space.map (pageOf (args 0).toNat) count page }
      else if p.space.free place count then { p with space := p.space.map place count page }
      else p

/-- `mprotect(address, length, prot)`, up to the first page that it fails on. -/
def mprotect (p : Process) (args : Fin 6 → BitVec 64) (choice : Choice) : Process :=
  let count := min (pageCount (args 1).toNat) choice.reached
  { p with space := p.space.protect (pageOf (args 0).toNat) count (args 2) }

/-- `mremap(old, oldLength, newLength, flags, new)`. -/
def mremap (p : Process) (args : Fin 6 → BitVec 64) (choice : Choice) : Process :=
  let old := pageOf (args 0).toNat
  match choice.place with
  | none => p
  | some place =>
    let new :=
      if flag (args 3) mremapFixed then pageOf (args 4).toNat
      else if flag (args 3) mremapMayMove then place
      else old
    { p with
      space := p.space.move old (pageCount (args 1).toNat) new (pageCount (args 2).toNat)
        (flag (args 3) mremapDontUnmap) }

/-- `write` and `writev`: the bytes are what the kernel finds in the buffers. -/
def emit (p : Process) (nr : Sysno) (args : Fin 6 → BitVec 64) (choice : Choice) : Process :=
  if fdArg (args 0) ∈ p.descriptors.fds then
    { p with output := p.output ++ [⟨nr, fdArg (args 0), choice.bytes⟩] }
  else p

/-- The effect of a system call that no filter stops. -/
def perform (k : Kernel) (p : Process) (call : Seccomp.Call Sysno) (choice : Choice) : Process :=
  match call.nr with
  | .mmap => p.mmap call.args choice
  | .mprotect => p.mprotect call.args choice
  | .mremap => p.mremap call.args choice
  | .munmap =>
    { p with space := p.space.unmap (pageOf (call.args 0).toNat) (pageCount (call.args 1).toNat) }
  | .brk => if choice.place.isSome then { p with space := p.space.setBrk (call.args 0).toNat } else p
  | .close => p.close (fdArg (call.args 0))
  | .write => p.emit .write call.args choice
  | .writev => p.emit .writev call.args choice
  | .exit | .exitGroup => { p with status := .exited }
  | .madvise | .futex | .schedYield | .rtSigaction | .rtSigprocmask | .rtSigreturn | .sigaltstack
  | .getrandom => p
  | .other _ => k.other call p

/-- One system call of a running process. Every filter has to allow it. -/
def syscall (k : Kernel) (p : Process) (e : Seccomp.Call Sysno × Choice) : Option Process :=
  if p.status = .running then
    if p.filters.all fun f => f.allows e.1 then some (p.perform k e.1 e.2)
    else some { p with status := .killed }
  else none

end Process

/-- The process `p` under the kernel `k`, issuing system calls. -/
def kernel (k : Kernel) (p : Process) : Machine Process (Seccomp.Call Sysno × Choice) :=
  ⟨p, Process.syscall k⟩

end Linux
