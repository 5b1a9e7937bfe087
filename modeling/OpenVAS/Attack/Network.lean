import OpenVAS.Hosts.Basic
import OpenVAS.Ports.Basic

/-! `attack_network` of `attack.c`: the target hosts, the access lists, and the
loop that starts a process for each host it may scan. The answers of the
system around it are inputs of the model. -/
namespace Attack

open CString Inet Hosts

/-- `arg_get_value` on the scan preferences; `none` is the NULL answer. -/
abbrev Preferences := CString → Option CString

/-- `none` for a value that is not set, empty or `no`. -/
def preferencesGetString (preferences : Preferences) (name : String) : Option CString :=
  (preferences (lit name)).filter fun pref => pref ≠ [] && pref ≠ lit "no"

/-- `none` is the error answer -1. -/
def preferencesGetBool (preferences : Preferences) (name : String) : Option Bool :=
  match preferences (lit name) with
  | none => none
  | some pref =>
      if pref = lit "no" then some false else if pref = lit "yes" then some true else none

/-- The ordering strategy. The random numbers are those of the generator that shuffling creates. -/
def orderHosts (random : Nat → Nat) (preferences : Preferences) (hosts : OpenvasHosts) :
    OpenvasHosts :=
  match preferencesGetString preferences "hosts_ordering" with
  | none => hosts
  | some ordering =>
      if ordering = lit "random" then openvasHostsShuffle random hosts
      else if ordering = lit "reverse" then openvasHostsReverse hosts
      else hosts

def excludePreferredHosts (fuel : Nat) (names : Names) (preferences : Preferences)
    (hosts : OpenvasHosts) : Except Halt OpenvasHosts :=
  match preferencesGetString preferences "exclude_hosts" with
  | none => .ok hosts
  | some excludeHosts => do
      let (_, remaining) ← openvasHostsExclude fuel names hosts excludeHosts true
      .ok remaining

def lookUpHosts (names : Names) (preferences : Preferences) (hosts : OpenvasHosts) :
    OpenvasHosts :=
  let hosts :=
    if preferencesGetBool preferences "reverse_lookup_unify" = some true then
      openvasHostsReverseLookupUnify names hosts
    else hosts
  if preferencesGetBool preferences "reverse_lookup_only" = some true then
    openvasHostsReverseLookupOnly names hosts
  else hosts

def applyHostsPreferences (fuel : Nat) (names : Names) (random : Nat → Nat)
    (preferences : Preferences) (hosts : OpenvasHosts) : Except Halt OpenvasHosts := do
  let remaining ← excludePreferredHosts fuel names preferences (orderHosts random preferences hosts)
  .ok (lookUpHosts names preferences remaining)

def strInCommaList (str commaList : CString) : Bool :=
  (commaList.splitOn (ch ',')).any fun element => gStrstrip element = str

/-- Whether neither pair of interface lists forbids the interface. -/
def ifaceAuthorized (iface : CString) (preferences : Preferences) : Bool :=
  let denied := fun name =>
    (preferencesGetString preferences name).any fun list => strInCommaList iface list
  let allowed := fun name =>
    (preferencesGetString preferences name).all fun list => strInCommaList iface list
  !denied "ifaces_deny" && allowed "ifaces_allow" && !denied "sys_ifaces_deny" &&
    allowed "sys_ifaces_allow"

/-- Whether the preferred source interface, if there is one, can be used. -/
def applySourceIfacePreference (sourceIfaceInit : CString → Bool) (preferences : Preferences) :
    Bool :=
  match preferencesGetString preferences "source_iface" with
  | none => true
  | some sourceIface => ifaceAuthorized sourceIface preferences && sourceIfaceInit sourceIface

/-- A list that is not there neither denies nor restricts. -/
def hostAuthorized (names : Names) (host : OpenvasHost) (addr : In6Addr)
    (hostsAllow hostsDeny : Option OpenvasHosts) : Bool :=
  if hostsDeny.any (openvasHostInHosts names host (some addr)) then false
  else if hostsAllow.any (fun allow => !openvasHostInHosts names host (some addr) allow) then false
  else true

/-- The access lists as `openvas_hosts_new` made them; `none` is NULL. -/
structure AccessLists where
  hostsAllow : Option OpenvasHosts
  hostsDeny : Option OpenvasHosts
  sysHostsAllow : Option OpenvasHosts
  sysHostsDeny : Option OpenvasHosts

/-- What the system does when the process of one host is started. -/
structure Incident where
  hostDown : Bool
  noSocket : Bool
  forkFailures : Nat

/-- What one call of `attack_network` meets outside the preferences. -/
structure Circumstances where
  random : Nat → Nat
  sourceIfaceInit : CString → Bool
  incident : Nat → Incident
  stopRequired : Bool

/-- A host for which a scan process was started, and the address it scans. -/
structure Started where
  host : OpenvasHost
  hostIp : In6Addr
deriving DecidableEq

def maxForkRetries : Nat := 10

/-- The loop over the hosts. Besides the started processes it returns whether a
host was dealt with in the network phase, which ends after one host. -/
def attackHosts (names : Names) (preferences : Preferences) (lists : AccessLists)
    (networkPhase : Bool) (incident : Nat → Incident) :
    Nat → Nat → List OpenvasHost → List Started × Bool
  | _, _, [] => ([], false)
  | index, forkRetries, host :: rest =>
      match openvasHostGetAddr6 names host with
      | none =>
          attackHosts names preferences lists networkPhase incident (index + 1) forkRetries rest
      | some hostIp =>
          if !hostAuthorized names host hostIp lists.hostsAllow lists.hostsDeny ||
              !hostAuthorized names host hostIp lists.sysHostsAllow lists.sysHostsDeny then
            if networkPhase then ([], true)
            else
              attackHosts names preferences lists networkPhase incident (index + 1) forkRetries rest
          else if preferencesGetBool preferences "use_mac_addr" = some true &&
              (incident index).hostDown then
            attackHosts names preferences lists networkPhase incident (index + 1) forkRetries rest
          else if (incident index).noSocket then ([], false)
          else if maxForkRetries < forkRetries + (incident index).forkFailures then ([], false)
          else if networkPhase then ([⟨host, hostIp⟩], true)
          else
            let later := attackHosts names preferences lists networkPhase incident (index + 1)
              (forkRetries + (incident index).forkFailures) rest
            (⟨host, hostIp⟩ :: later.1, later.2)

/-- The hosts that `openvas_hosts_next` will return. -/
def targetHosts (fuel : Nat) (names : Names) (random : Nat → Nat) (preferences : Preferences)
    (hostlist : CString) : Except Halt (List OpenvasHost) := do
  match ← openvasHostsNew fuel (some hostlist) with
  | none => .ok []
  | some hosts => do
      let ordered ← applyHostsPreferences fuel names random preferences hosts
      .ok ordered.current

def accessLists (fuel : Nat) (preferences : Preferences) : Except Halt AccessLists := do
  let hostsAllow ← openvasHostsNew fuel (preferencesGetString preferences "hosts_allow")
  let hostsDeny ← openvasHostsNew fuel (preferencesGetString preferences "hosts_deny")
  let sysHostsAllow ← openvasHostsNew fuel (preferencesGetString preferences "sys_hosts_allow")
  let sysHostsDeny ← openvasHostsNew fuel (preferencesGetString preferences "sys_hosts_deny")
  .ok { hostsAllow, hostsDeny, sysHostsAllow, sysHostsDeny }

/-- The hosts to iterate over and the access lists; `none` when the scan is refused. -/
def scanInputs (fuel : Nat) (names : Names) (preferences : Preferences)
    (circumstances : Circumstances) : Except Halt (Option (List OpenvasHost × AccessLists)) :=
  match preferences (lit "TARGET") with
  | none => .ok none
  | some hostlist =>
      if !Ports.validatePortRange (preferences (lit "port_range")) then .ok none
      else do
        let hosts ← targetHosts fuel names circumstances.random preferences hostlist
        if !applySourceIfacePreference circumstances.sourceIfaceInit preferences then .ok none
        else do
          let lists ← accessLists fuel preferences
          .ok (some (hosts, lists))

/-- One call for each entry of `calls`, as long as the network phase makes
another one. The result is the started processes and why there is no more, if
the calls or the steps of an address loop are used up. -/
def attackNetwork (fuel : Nat) (names : Names) (preferences : Preferences) :
    List Circumstances → Bool → List Started × Option Halt
  | [], _ => ([], some .running)
  | circumstances :: calls, networkScanDone =>
      match scanInputs fuel names preferences circumstances with
      | .error halt => ([], some halt)
      | .ok none => ([], none)
      | .ok (some (hosts, lists)) =>
          let networkPhase :=
            preferencesGetBool preferences "network_scan" = some true && !networkScanDone
          let (started, tested) :=
            attackHosts names preferences lists networkPhase circumstances.incident 0 0 hosts
          if networkPhase && !circumstances.stopRequired then
            let (later, halt) := attackNetwork fuel names preferences calls tested
            (started ++ later, halt)
          else (started, none)

end Attack
