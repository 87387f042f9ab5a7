import TierAlloc.Allocator.Access
import TierAlloc.Allocator.Handoff
import TierAlloc.Descriptor.Wire
import TierAlloc.Outline
import TierAlloc.Proofs.Run
import TierAlloc.Proofs.Memory.Patch
import TierAlloc.Proofs.Memory.Names
import TierAlloc.Proofs.Memory.Owners
import TierAlloc.Proofs.Memory.Tally
import TierAlloc.Proofs.Memory.Heap
import TierAlloc.Proofs.Memory.Lending
import TierAlloc.Proofs.Consumer.Attachments
import TierAlloc.Proofs.Exchange.Words
import TierAlloc.Proofs.Exchange.Owner
import TierAlloc.Proofs.Exchange.Peers
import TierAlloc.Proofs.Exchange.Untrusted
import TierAlloc.Proofs.Exchange.Traffic
import TierAlloc.Proofs.Exchange.Awaited
import TierAlloc.Proofs.Exchange.Meeting
import TierAlloc.Proofs.Exchange.Progress
import TierAlloc.Proofs.Cache.Entries
import TierAlloc.Proofs.Cache.Channel
import TierAlloc.Proofs.Cache.Payload
import TierAlloc.Proofs.Cache.Integrity
import TierAlloc.Proofs.Cache.Ending
import TierAlloc.Proofs.Cache.Containment
import TierAlloc.Proofs.Cache.Stale
import TierAlloc.Proofs.Static.Chunks
import TierAlloc.Proofs.Static.Tier
import TierAlloc.Proofs.Static.Room
import TierAlloc.Proofs.Static.Words
import TierAlloc.Proofs.Static.History
import TierAlloc.Proofs.Static.Answers
import TierAlloc.Proofs.Allocator.Ledger
import TierAlloc.Proofs.Allocator.Requests
import TierAlloc.Proofs.Allocator.Changes
import TierAlloc.Proofs.Allocator.Balance
import TierAlloc.Proofs.Allocator.System
import TierAlloc.Proofs.Allocator.Accounts
import TierAlloc.Proofs.Allocator.Regions
import TierAlloc.Proofs.Allocator.Places
import TierAlloc.Proofs.Allocator.Values
import TierAlloc.Proofs.Allocator.Handoffs
import TierAlloc.Proofs.Allocator.Contents
import TierAlloc.Proofs.Allocator.Growth
import TierAlloc.Proofs.Allocator.Steady
import TierAlloc.Proofs.Allocator.Blame
import TierAlloc.Proofs.Allocator.Faults
import TierAlloc.Proofs.Consumer.Registrations
import TierAlloc.Proofs.Cache.Budget
import TierAlloc.Proofs.Cache.Filling
import TierAlloc.Proofs.Ids.Draws
import TierAlloc.Proofs.Ids.Holdings
import TierAlloc.Proofs.Ids.Allocators
import TierAlloc.Proofs.Ids.Family
import TierAlloc.Proofs.Allocator.Sizes
import TierAlloc.Proofs.Allocator.Bounds
import TierAlloc.Proofs.Descriptor.Roundtrip
import TierAlloc.Proofs.Descriptor.Archives
import TierAlloc.Proofs.Shared.Footprint
import TierAlloc.Proofs.Shared.Standing
import TierAlloc.Proofs.Shared.World
import TierAlloc.Proofs.Shared.Coherence
import TierAlloc.Proofs.Shared.Succession
import TierAlloc.Proofs.Shared.Tenure
import TierAlloc.Proofs.Shared.Turns
import TierAlloc.Proofs.Shared.Lifetime
import TierAlloc.Proofs.Static.Order
import TierAlloc.Proofs.Static.Plan
import TierAlloc.Proofs.Static.Usage
import TierAlloc.Proofs.Static.Choice
import TierAlloc.Proofs.Static.Layout
import TierAlloc.Proofs.Allocator.Membership
import TierAlloc.Proofs.Consumer.Rollback
import TierAlloc.Proofs.Allocator.Emptied
import TierAlloc.Proofs.Consumer.Handles
import TierAlloc.Proofs.Cache.Areas
import TierAlloc.Proofs.Cache.Leftovers
import TierAlloc.Proofs.Cache.Unharmed
import TierAlloc.Proofs.Cache.Agreement
import TierAlloc.Proofs.Exchange.Parts
import TierAlloc.Proofs.Static.Flags
