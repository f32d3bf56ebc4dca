import Stice.Server.State

/-! The allocation tables (`TurnServer::allocKey` to `destroyAllocation`, and the
registration at the end of `handleAllocate`). -/
namespace Stice.Server
open Std Net Stun Turn

/-- `"T|<ip>:<port>"` or `"U|<ip>:<port>"`. -/
def allocKey (cfg : Config) (transport : SockType) (client : AddrRecord) : Bytes :=
  (if transport = .stream then [84] else [85]) ++ [124] ++ cfg.addrText client.ip client.port

def Allocation.key (cfg : Config) (a : Allocation) : Bytes := allocKey cfg a.transport a.clientAddr

namespace Tables

def findAlloc (t : Tables) (key : Bytes) : Option Ptr := t.allocations[key]?

/-- The first TCP allocation, in key order, with that relayed address. -/
def findTcpAllocByPeer (t : Tables) (peer : AddrRecord) (exclude : Ptr) : Option Ptr :=
  t.allocations.toList.findSome? fun (_, p) =>
    match t.heap[p]? with
    | some a =>
        if p ≠ exclude ∧ a.transport = .stream ∧ a.relayedAddr.isEqual peer true then some p
        else none
    | none => none

/-- `findPendingByConnId`: the connector and its pending connect. -/
def findPendingByConnId (t : Tables) (connId : UInt32) : Option (Ptr × PendingConnect) :=
  match t.pendingByConnId[connId]? with
  | none => none
  | some p =>
      match t.heap[p]? with
      | none => none
      | some a => (a.pendingConnects.find? fun pc => pc.connId = connId).map fun pc => (p, pc)

/-! ## Relay ports -/

/-- 200 random picks, then every port of the range in order. The ends of the range are
swapped when they come in the wrong order. -/
def relayPortCandidates (first last : UInt16) (random : Nat → UInt32) :
    List UInt16 × List UInt16 :=
  let lo := min first.toNat last.toNat
  let hi := max first.toNat last.toNat
  let span := hi - lo + 1
  ((List.range 200).map fun i => UInt16.ofNat (lo + (random i).toNat % span),
    (List.range span).map fun i => UInt16.ofNat (lo + i))

def portFree (t : Tables) (avoid : List UInt16) (port : UInt16) : Bool :=
  !t.usedRelayPorts.contains port && !avoid.contains port

/-- Reserve a port of a range, with no owner yet; 0 when the range is exhausted. -/
def allocRelayPortIn (first last : UInt16) (random : Nat → UInt32) (avoid : List UInt16)
    (t : Tables) : UInt16 × Tables :=
  let (randoms, all) := relayPortCandidates first last random
  match (randoms.find? (t.portFree avoid)).or (all.find? (t.portFree avoid)) with
  | some port => (port, { t with usedRelayPorts := t.usedRelayPorts.insert port none })
  | none => (0, t)

def allocRelayPort (cfg : Config) (random : Nat → UInt32) (avoid : List UInt16) (t : Tables) :
    UInt16 × Tables :=
  allocRelayPortIn cfg.relayPortBegin cfg.relayPortEnd random avoid t

/-- Only the owner may free a port; a port without an owner is free for all. -/
def releaseRelayPort (port : UInt16) (owner : Option Ptr) (t : Tables) : Tables :=
  match t.usedRelayPorts[port]? with
  | none => t
  | some o =>
      if o ≠ none ∧ o ≠ owner then t
      else { t with usedRelayPorts := t.usedRelayPorts.erase port }

/-! ## Ownership -/

/-- `allocations_.erase(key)` frees the object the entry owns. -/
def eraseAllocation (key : Bytes) (t : Tables) : Tables :=
  match t.allocations[key]? with
  | none => t
  | some p => { t with allocations := t.allocations.erase key, heap := t.heap.erase p }

/-- `allocations_[key] = std::move(a)` frees the object that was there. -/
def assignAllocation (key : Bytes) (p : Ptr) (a : Allocation) (t : Tables) : Tables :=
  let t := eraseAllocation key t
  { t with allocations := t.allocations.insert key p, heap := t.heap.insert p a }

def eraseLookups (a : Allocation) (t : Tables) : Tables :=
  { t with
    allocByRelaySock := t.allocByRelaySock.erase a.relaySock
    allocByRelayAddr := t.allocByRelayAddr.erase a.relayedAddr.key
    allocByClientAddr := t.allocByClientAddr.erase a.clientAddr.key
    allocByControlSock :=
      if a.controlSock = invalidSocket then t.allocByControlSock
      else t.allocByControlSock.erase a.controlSock
    pendingByConnId := a.pendingConnects.foldl (fun m pc => m.erase pc.connId) t.pendingByConnId }

/-- Remove an allocation from every lookup map, release its port and free it. -/
def destroyAllocation (cfg : Config) (p : Ptr) (t : Tables) : Tables :=
  match t.heap[p]? with
  | none => t
  | some a =>
      eraseAllocation (a.key cfg) (releaseRelayPort a.relayPort (some p) (eraseLookups a t))

/-- Commit the port and enter the lookup maps. -/
def enterLookups (a : Allocation) (overTcp : Bool) (t : Tables) : Tables :=
  let p := t.nextPtr
  let t := { t with
    nextPtr := p + 1
    usedRelayPorts := t.usedRelayPorts.insert a.relayPort (some p) }
  let t :=
    if a.transport = .dgram then
      { t with
        allocByRelaySock := t.allocByRelaySock.insert a.relaySock p
        allocByRelayAddr := t.allocByRelayAddr.insert a.relayedAddr.key p
        allocByClientAddr := t.allocByClientAddr.insert a.clientAddr.key p }
    else { t with allocByControlSock := t.allocByControlSock.insert a.controlSock p }
  if overTcp ∧ a.controlSock ≠ invalidSocket then
    { t with allocByControlSock := t.allocByControlSock.insert a.controlSock p }
  else t

/-- The registration at the end of `handleAllocate`, which hands the object to
`allocations_` last. -/
def register (cfg : Config) (a : Allocation) (overTcp : Bool) (t : Tables) : Tables :=
  assignAllocation (a.key cfg) t.nextPtr a (enterLookups a overTcp t)

/-! ## Expiry -/

/-- What `expireStale` removes from one allocation. -/
def dropExpired (now : Int) (a : Allocation) : Allocation :=
  { a with
    permissions := a.permissions.filter fun x => now < x.expiryMs
    channels := a.channels.filter fun x => now < x.expiryMs
    pendingConnects := a.pendingConnects.filter fun x => now < x.expiryMs }

def expireOne (cfg : Config) (now : Int) (t : Tables) (p : Ptr) : Tables :=
  match t.heap[p]? with
  | none => t
  | some a =>
      let t := { t with
        heap := t.heap.modify p (dropExpired now)
        pendingByConnId := (a.pendingConnects.filter fun x => x.expiryMs ≤ now).foldl
          (fun m pc => m.erase pc.connId) t.pendingByConnId }
      if a.expiryMs ≤ now then destroyAllocation cfg p t else t

/-- The safety net: ports whose owner's key is gone are released. -/
def releaseOrphans (cfg : Config) (t : Tables) : Tables :=
  { t with usedRelayPorts := t.usedRelayPorts.filter fun _ owner =>
      match owner.bind fun p => t.heap[p]? with
      | some a => t.allocations.contains (a.key cfg)
      | none => true }

/-- The sweep visits the allocations in key order, as they were when it began:
`destroyAllocation` removes the visited node only. -/
def expireAllocations (cfg : Config) (now : Int) (t : Tables) : Tables :=
  releaseOrphans cfg ((t.allocations.toList.map Prod.snd).foldl (expireOne cfg now) t)

end Tables
end Stice.Server
