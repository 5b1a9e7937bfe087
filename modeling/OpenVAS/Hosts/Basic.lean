import OpenVAS.Hosts.Element

/-! Host objects and hosts collections: how `openvas_hosts.c` builds a collection
from a hosts string, orders and filters it, and looks a host up in it. -/
namespace Hosts

open CString Inet

/-- `openvas_host_t`, a union of a name and the two kinds of address. -/
inductive OpenvasHost where
  | name (name : CString)
  | ipv4 (addr : UInt32)
  | ipv6 (addr6 : In6Addr)
deriving DecidableEq

/-- `openvas_hosts_t`; `current` is the part of the list that iteration has left. -/
structure OpenvasHosts where
  hosts : List OpenvasHost
  current : List OpenvasHost
  count : UInt32
  removed : UInt32
deriving DecidableEq

/-- The name service: IPv4 addresses of names, and names of addresses. -/
structure Names where
  resolve : CString → Option UInt32
  lookup4 : UInt32 → Option CString
  lookup6 : In6Addr → Option CString

/-- Why a computation has no result: it used up the steps it was given, or it
did something the language leaves undefined. -/
inductive Halt where
  | running
  | undefined
deriving DecidableEq

def openvasHostValueStr : OpenvasHost → CString
  | .name name => name
  | .ipv4 addr => inetNtop4 addr
  | .ipv6 addr6 => inetNtop6 addr6

/-- The address of a host; names go through the resolver. -/
def openvasHostGetAddr6 (names : Names) : OpenvasHost → Option In6Addr
  | .ipv6 addr6 => some addr6
  | .ipv4 addr => some (ipv4AsIpv6 addr)
  | .name name => (names.resolve name).map ipv4AsIpv6

namespace OpenvasHosts

def empty : OpenvasHosts := { hosts := [], current := [], count := 0, removed := 0 }

def prepend (self : OpenvasHosts) (host : OpenvasHost) : OpenvasHosts :=
  { self with hosts := host :: self.hosts, count := self.count + 1 }

/-- The collection with the kept part of its list; the counters follow and the iterator is reset. -/
def keep (self : OpenvasHosts) (kept : List OpenvasHost) : OpenvasHosts :=
  let dropped := UInt32.ofNat (self.hosts.length - kept.length)
  { hosts := kept, current := kept, count := self.count - dropped,
    removed := self.removed + dropped }

/-- Whether a maximum is set and exceeded. -/
def exceeds (self : OpenvasHosts) (maxHosts : UInt32) : Bool :=
  0 < maxHosts && maxHosts < self.count

end OpenvasHosts

/-- The hosts whose key did not occur earlier in the list; a host without a key stays. -/
def unify (key : OpenvasHost → Option CString) : List CString → List OpenvasHost → List OpenvasHost
  | _, [] => []
  | table, host :: rest =>
      match key host with
      | none => host :: unify key table rest
      | some name =>
          if name ∈ table then unify key table rest else host :: unify key (name :: table) rest

def openvasHostsDeduplicate (hosts : OpenvasHosts) : OpenvasHosts :=
  hosts.keep (unify (fun host => some (openvasHostValueStr host)) [] hosts.hosts)

section AddressLoop

variable {α : Type} (next : α → α) (notAfter : α → α → Bool) (host : α → OpenvasHost)

/-- Adds the addresses from `current` to `last` as single hosts; `none` is the NULL answer. -/
def addAddresses (maxHosts : UInt32) :
    Nat → α → α → OpenvasHosts → Except Halt (Option OpenvasHosts)
  | 0, _, _, _ => .error .running
  | fuel + 1, current, last, hosts =>
      if notAfter current last then
        let hosts := hosts.prepend (host current)
        if hosts.exceeds maxHosts then .ok none
        else addAddresses maxHosts fuel (next current) last hosts
      else .ok (some hosts)

/-- The hosts of a block or range, none when it cannot be read or ends before it starts. -/
def addIps (maxHosts : UInt32) (fuel : Nat) (ips : Ips α) (hosts : OpenvasHosts) :
    Except Halt (Option OpenvasHosts) :=
  match ips with
  | .failed => .ok (some hosts)
  | .undefined => .error .undefined
  | .range first last =>
      if notAfter first last then addAddresses next notAfter host maxHosts fuel first last hosts
      else .ok (some hosts)

end AddressLoop

def addIps4 (maxHosts : UInt32) (fuel : Nat) :
    Ips UInt32 → OpenvasHosts → Except Halt (Option OpenvasHosts) :=
  addIps (· + 1) (fun current last => current ≤ last) .ipv4 maxHosts fuel

def addIps6 (maxHosts : UInt32) (fuel : Nat) :
    Ips In6Addr → OpenvasHosts → Except Halt (Option OpenvasHosts) :=
  addIps In6Addr.next In6Addr.notAfter .ipv6 maxHosts fuel

/-- The hosts that one element adds. A host object is zeroed before its address is read. -/
def addElement (maxHosts : UInt32) (fuel : Nat) (stripped : CString) (hosts : OpenvasHosts) :
    Except Halt (Option OpenvasHosts) :=
  match determineHostType stripped with
  | some .name => .ok (some (hosts.prepend (.name stripped)))
  | some .ipv4 => .ok (some (hosts.prepend (.ipv4 ((inetPton4 stripped).getD 0))))
  | some .ipv6 =>
      .ok (some (hosts.prepend (.ipv6 ((inetPton6 stripped).getD ⟨List.replicate 16 0, rfl⟩))))
  | some .cidrBlock => addIps4 maxHosts fuel (cidrBlockIps stripped) hosts
  | some .rangeShort => addIps4 maxHosts fuel (shortRangeNetworkIps stripped) hosts
  | some .rangeLong => addIps4 maxHosts fuel (longRangeNetworkIps stripped) hosts
  | some .cidr6Block => addIps6 maxHosts fuel (cidr6BlockIps stripped) hosts
  | some .range6Short => addIps6 maxHosts fuel (shortRange6NetworkIps stripped) hosts
  | some .range6Long => addIps6 maxHosts fuel (longRange6NetworkIps stripped) hosts
  | none => .ok none

def addElements (maxHosts : UInt32) (fuel : Nat) :
    List CString → OpenvasHosts → Except Halt (Option OpenvasHosts)
  | [], hosts => .ok (some hosts)
  | element :: rest, hosts => do
      match ← addElement maxHosts fuel element hosts with
      | none => .ok none
      | some hosts =>
          if hosts.exceeds maxHosts then .ok none else addElements maxHosts fuel rest hosts

/-- The elements of a hosts string: newlines count as commas, blank elements are skipped. -/
def hostElements (hostsStr : CString) : List CString :=
  ((hostsStr.map newlineToComma).splitOn (ch ',')).map gStrstrip |>.filter (· ≠ [])

/-- `fuel` bounds each of the address loops. -/
def openvasHostsNewWithMax (fuel : Nat) (hostsStr : Option CString) (maxHosts : UInt32) :
    Except Halt (Option OpenvasHosts) :=
  match hostsStr with
  | none => .ok none
  | some hostsStr => do
      match ← addElements maxHosts fuel (hostElements hostsStr) .empty with
      | none => .ok none
      | some hosts =>
          .ok (some (openvasHostsDeduplicate { hosts with hosts := hosts.hosts.reverse }))

def openvasHostsNew (fuel : Nat) (hostsStr : Option CString) : Except Halt (Option OpenvasHosts) :=
  openvasHostsNewWithMax fuel hostsStr 0

/-- The next host of the iteration, if any, and the collection after the step. -/
def openvasHostsNext (hosts : OpenvasHosts) : Option OpenvasHost × OpenvasHosts :=
  match hosts.current with
  | [] => (none, hosts)
  | host :: rest => (some host, { hosts with current := rest })

/-- Moves `count` hosts, picked by random positions, to the front of a new list. The
position is 0 where `count` is negative as an `int`, and a position behind the
end of the list moves nothing. -/
def shuffleHosts (random : Nat → Nat) : Nat → List OpenvasHost → List OpenvasHost → List OpenvasHost
  | 0, _, shuffled => shuffled
  | count + 1, hosts, shuffled =>
      let position := if count + 1 < 2 ^ 31 then random (count + 1) % (count + 1) else 0
      match hosts[position]? with
      | none => shuffleHosts random count hosts shuffled
      | some host => shuffleHosts random count (hosts.eraseIdx position) (host :: shuffled)

def openvasHostsShuffle (random : Nat → Nat) (hosts : OpenvasHosts) : OpenvasHosts :=
  let shuffled := shuffleHosts random hosts.count.toNat hosts.hosts []
  { hosts with hosts := shuffled, current := shuffled }

def openvasHostsReverse (hosts : OpenvasHosts) : OpenvasHosts :=
  if hosts.hosts = [] then hosts
  else { hosts with hosts := hosts.hosts.reverse, current := hosts.hosts.reverse }

/-- Replaces the names that resolve by their addresses. -/
def openvasHostsResolve (names : Names) (hosts : OpenvasHosts) : OpenvasHosts :=
  let resolved := hosts.hosts.map fun host =>
    match host with
    | .name name => (names.resolve name).elim host .ipv4
    | _ => host
  { hosts with hosts := resolved, current := resolved }

/-- Takes the hosts of `excludedStr` out of the collection. The answer is their number
as an `int`, or -1 for a string that is refused. -/
def openvasHostsExclude (fuel : Nat) (names : Names) (hosts : OpenvasHosts)
    (excludedStr : CString) (resolve : Bool) : Except Halt (Int32 × OpenvasHosts) := do
  match ← openvasHostsNew fuel (some excludedStr) with
  | none => .ok (-1, hosts)
  | some excluded =>
      let excluded := if resolve then openvasHostsResolve names excluded else excluded
      if excluded.count = 0 then .ok (0, hosts)
      else
        let table := excluded.hosts.map openvasHostValueStr
        let kept := hosts.hosts.filter fun host => openvasHostValueStr host ∉ table
        .ok (Int32.ofNat (hosts.hosts.length - kept.length), hosts.keep kept)

/-- The name an address looks up to; a name counts as its own. -/
def openvasHostReverseLookup (names : Names) : OpenvasHost → Option CString
  | .name name => some name
  | .ipv4 addr => names.lookup4 addr
  | .ipv6 addr6 => names.lookup6 addr6

def openvasHostsReverseLookupOnly (names : Names) (hosts : OpenvasHosts) : OpenvasHosts :=
  hosts.keep (hosts.hosts.filter fun host => (openvasHostReverseLookup names host).isSome)

def openvasHostsReverseLookupUnify (names : Names) (hosts : OpenvasHosts) : OpenvasHosts :=
  hosts.keep (unify (openvasHostReverseLookup names) [] hosts.hosts)

/-- Whether a host has an equal one in a collection: one with the same text up to case,
or, except for names, one with the given address. -/
def openvasHostInHosts (names : Names) (host : OpenvasHost) (addr : Option In6Addr)
    (hosts : OpenvasHosts) : Bool :=
  hosts.hosts.any fun element =>
    strcaseeq (openvasHostValueStr host) (openvasHostValueStr element) ||
      match addr, element with
      | none, _ => false
      | some _, .name _ => false
      | some addr, element => openvasHostGetAddr6 names element = some addr

end Hosts
