import RtlSdr.RingGaps
import RtlSdr.Stream.Sendv
import RtlSdr.Stream.Request
import RtlSdr.Stream.Agreement
import RtlSdr.Server.Retune
import RtlSdr.Server.IqStream
import RtlSdr.Server.Spectra
import RtlSdr.Eeprom.Descriptors
import RtlSdr.Librtlsdr.Devices
import RtlSdr.Librtlsdr.IfFreq
import RtlSdr.Tcp.Delivery
import RtlSdr.Tcp.Slots
import RtlSdr.Tcp.Commands
import RtlSdr.Librtlsdr.WriteEeprom
import RtlSdr.Capture
import RtlSdr.R82xx.PllWords
import RtlSdr.Dsp.Contract
import RtlSdr.Server.HopSpectra
import RtlSdr.R82xx.Bandwidth
import RtlSdr.R82xx.BlogV4
import RtlSdr.R82xx.Gain
import RtlSdr.Librtlsdr.OffsetTuning
import RtlSdr.Librtlsdr.AsyncEnd
import RtlSdr.Adsb.RoundTrip
import RtlSdr.Fm.Channels
import RtlSdr.Fm.Options
import RtlSdr.Fm.Range
import RtlSdr.Power.FixFftDft
import RtlSdr.Librtlsdr.Tuners.E4kFields
import RtlSdr.RtlTest.Ppm
import RtlSdr.RtlTest.Underrun
import RtlSdr.Stream.LastEvent
import RtlSdr.Power.Window
import RtlSdr.Power.Hops
