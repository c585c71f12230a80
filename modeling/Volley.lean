import Volley.Rehearsal
import Volley.Session
import Volley.Proofs.Table
import Volley.Proofs.Program
import Volley.Proofs.Program.Dialogue
import Volley.Proofs.Program.Transcript
import Volley.Proofs.Program.Reading
import Volley.Proofs.Program.Pruning
import Volley.Proofs.Emitter
import Volley.Proofs.Emitter.History
import Volley.Proofs.Bullet.Life
import Volley.Proofs.Bullet.Guise
import Volley.Proofs.Bullet.Lifecycle
import Volley.Proofs.Bullet.Activity
import Volley.Proofs.Bullet.Damage
import Volley.Proofs.Bullet.Landing
import Volley.Proofs.Bullet.Departure
import Volley.Proofs.Bullet.Lookups
import Volley.Proofs.Bullet.Reindexing
import Volley.Proofs.Bullet.Reentry
import Volley.Proofs.Bullet.Relay
import Volley.Proofs.Bullet.Story
import Volley.Proofs.Bullet.Airborne
import Volley.Proofs.Number.Nearest
import Volley.Proofs.Number.Single
import Volley.Proofs.Number.Whole
import Volley.Proofs.Number.Arccos
import Volley.Proofs.Flight.Independence
import Volley.Proofs.Flight.Ending
import Volley.Proofs.Flight.Arc
import Volley.Proofs.Flight.Pursuit
import Volley.Proofs.Flight.Straight
import Volley.Proofs.World.Actors
import Volley.Proofs.World.Acts
import Volley.Proofs.World.Accumulator
import Volley.Proofs.World.Snapshot
import Volley.Proofs.World.Guise
import Volley.Proofs.World.FrameRate
import Volley.Proofs.World.Bookkeeping
import Volley.Proofs.World.Order
import Volley.Proofs.World.Fate
import Volley.Proofs.World.Accounts
import Volley.Proofs.World.Stream
import Volley.Proofs.World.Identity
import Volley.Proofs.World.Origin
import Volley.Proofs.World.Sight
import Volley.Proofs.World.Activity
import Volley.Proofs.World.Tick
import Volley.Proofs.World.Lookups
import Volley.Proofs.Visual.Binder
import Volley.Proofs.Visual.History
import Volley.Proofs.Session.LoadLevel
import Volley.Proofs.Session.Cells
import Volley.Proofs.Session.Acts
import Volley.Proofs.Session.Scripts
import Volley.Proofs.Session.Passage
import Volley.Proofs.Session.Calls
import Volley.Proofs.Session.Delivery
import Volley.Proofs.Session.Links
import Volley.Proofs.Session.Tracking
import Volley.Proofs.Session.Transforms
import Volley.Proofs.Session.Retries
import Volley.Proofs.Session.Interference
import Volley.Proofs.Session.Verbs
import Volley.Proofs.Session.Protocol
import Volley.Proofs.Session.Renumber
import Volley.Proofs.Session.Renewal
import Volley.Proofs.Session.Programs
import Volley.Proofs.Session.Elapsed
import Volley.Proofs.Catalog.Load
import Volley.Proofs.Catalog.History
import Volley.Proofs.Config.RoundTrip
import Volley.Proofs.Snapshot
