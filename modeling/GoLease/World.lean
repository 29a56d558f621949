import GoLease.Fleet
import GoLease.Memory.Store

namespace GoLease

/-- Any number of clients and handles over one memory store. -/
abbrev World := Fleet Memory.Store

namespace World

abbrev start (now : Int) (store : Memory.Store) : World := Fleet.start now store

abbrev step : World → Fleet.Event → World := Fleet.step Memory.Store.exec

end World

end GoLease
